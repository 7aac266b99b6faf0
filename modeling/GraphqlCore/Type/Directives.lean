import GraphqlCore.Type.Definition

/-!
# Directives

The directives of `type/directives.py` that are always known.  A location is given
by its name.
-/

namespace GraphqlCore

def boolean : GraphQLType := .named (str "Boolean")

/-- Used to conditionally include fields or fragments. -/
def graphQLIncludeDirective : GraphQLDirective where
  name := str "include"
  locations := [str "FIELD", str "FRAGMENT_SPREAD", str "INLINE_FRAGMENT"]
  args := Dict.empty.set (str "if")
    { type := .nonNull boolean, description := some (str "Included when true.") }
  description := some (str "Directs the executor to include this field or fragment" ++
    str " only when the `if` argument is true.")

/-- Used to conditionally skip (exclude) fields or fragments. -/
def graphQLSkipDirective : GraphQLDirective where
  name := str "skip"
  locations := [str "FIELD", str "FRAGMENT_SPREAD", str "INLINE_FRAGMENT"]
  args := Dict.empty.set (str "if")
    { type := .nonNull boolean, description := some (str "Skipped when true.") }
  description := some (str "Directs the executor to skip this field or fragment" ++
    str " when the `if` argument is true.")

/-- Used to conditionally defer fragments. -/
def graphQLDeferDirective : GraphQLDirective where
  name := str "defer"
  description := some (str "Directs the executor to defer this fragment" ++
    str " when the `if` argument is true or undefined.")
  locations := [str "FRAGMENT_SPREAD", str "INLINE_FRAGMENT"]
  args := (Dict.empty.set (str "if")
    { type := .nonNull boolean
      description := some (str "Deferred when true or undefined.")
      defaultValue := some (.bool true) }).set (str "label")
    { type := .named (str "String"), description := some (str "Unique name") }

/-- Constant string used for default reason for a deprecation. -/
def defaultDeprecationReason : Text := str "No longer supported"

/-- Used to declare element of a GraphQL schema as deprecated. -/
def graphQLDeprecatedDirective : GraphQLDirective where
  name := str "deprecated"
  locations := [str "FIELD_DEFINITION", str "ARGUMENT_DEFINITION",
    str "INPUT_FIELD_DEFINITION", str "ENUM_VALUE", str "DIRECTIVE_DEFINITION"]
  args := Dict.empty.set (str "reason")
    { type := .nonNull (.named (str "String"))
      description := some (str "Explains why this element was deprecated," ++
        str " usually also including a suggestion for how to access" ++
        str " supported similar data." ++
        str " Formatted using the Markdown syntax, as specified by" ++
        str " [CommonMark](https://commonmark.org/).")
      default := some (.value (.str defaultDeprecationReason)) }
  description := some (str "Marks an element of a GraphQL schema as no longer supported.")

/-- Used to provide a URL for specifying the behavior of custom scalar definitions. -/
def graphQLSpecifiedByDirective : GraphQLDirective where
  name := str "specifiedBy"
  locations := [str "SCALAR"]
  args := Dict.empty.set (str "url")
    { type := .nonNull (.named (str "String"))
      description := some (str "The URL that specifies the behavior of this scalar.") }
  description := some (str "Exposes a URL that specifies the behavior of this scalar.")

/-- Used to indicate an Input Object is a OneOf Input Object. -/
def graphQLOneOfDirective : GraphQLDirective where
  name := str "oneOf"
  locations := [str "INPUT_OBJECT"]
  description := some (str "Indicates exactly one field must be supplied" ++
    str " and this field must not be `null`.")

/-- The directives from the GraphQL specification. -/
def specifiedDirectives : List GraphQLDirective :=
  [graphQLIncludeDirective, graphQLSkipDirective, graphQLDeprecatedDirective,
    graphQLSpecifiedByDirective, graphQLOneOfDirective]

/-- Check whether the given directive is one of the specified directives. -/
def isSpecifiedDirective (directive : GraphQLDirective) : Bool :=
  specifiedDirectives.any fun specified => specified.name = directive.name

end GraphqlCore
