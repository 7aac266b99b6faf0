import GraphqlCore.Language.Printer
import GraphqlCore.Type.Introspection
import GraphqlCore.Utilities.DefaultValueAst

/-!
# Printing schemas

The functions of `utilities/print_schema.py`.  They raise an error only where a default value
has no literal.
-/

namespace GraphqlCore.SchemaPrinter

open Language (isPrintableAsBlockString printStringValue)

/-! ## Descriptions and deprecations -/

/-- Print a description. -/
def printDescription (description : Option Text) (indentation : Text := [])
    (firstInBlock : Bool := true) : Text :=
  match description with
  | none => []
  | some description =>
      let blockString := printStringValue
        { value := description, block := some (isPrintableAsBlockString description) }
      let start :=
        if !indentation.isEmpty && !firstInBlock then str "\n" ++ indentation else indentation
      start ++ (blockString.flatMap fun c => if c = 10 then 10 :: indentation else [c]) ++
        str "\n"

/-- Print a deprecation reason. -/
def printDeprecated : Option Text → Text
  | none => []
  | some reason =>
      if reason ≠ defaultDeprecationReason then
        str " @deprecated(reason: " ++ printStringValue { value := reason } ++ str ")"
      else str " @deprecated"

/-- Print a specification URL. -/
def printSpecifiedByUrl : Option Text → Text
  | none => []
  | some url => str " @specifiedBy(url: " ++ printStringValue { value := url } ++ str ")"

/-- Print a block with the given items. -/
def printBlock (items : List Text) : Text :=
  if items.isEmpty then []
  else str " \x7b\n" ++ (str "\n").intercalate items ++ str "\n\x7d"

def printImplementedInterfaces (interfaces : List Text) : Text :=
  if interfaces.isEmpty then [] else str " implements " ++ (str " & ").intercalate interfaces

section Printer

variable (typeMap : Dict Text GraphQLNamedType) (functions : ValueFunctions)

/-! ## Arguments and fields -/

/-- Print an input value. -/
def printInputValue (name : Text) (arg : GraphQLArgument) : Except Text Text := do
  let argDecl := name ++ str ": " ++ arg.type.print
  let argDecl := match ← getDefaultValueAst typeMap functions arg.toInputDefinition with
    | some defaultValueAst => argDecl ++ str " = " ++ Language.printValue defaultValueAst
    | none => argDecl
  return argDecl ++ printDeprecated arg.deprecationReason

/-- Print the given GraphQL arguments. -/
def printArgs (args : Dict Text GraphQLArgument) (indentation : Text := []) :
    Except Text Text :=
  if args.items.isEmpty then .ok []
  -- If every arg does not have a description, print them on one line.
  else if args.items.all fun arg => arg.2.description.isNone then do
    let texts ← args.items.mapM fun arg => printInputValue typeMap functions arg.1 arg.2
    return str "(" ++ (str ", ").intercalate texts ++ str ")"
  else do
    let texts ← args.items.zipIdx.mapM fun ((name, arg), i) => do
      let text ← printInputValue typeMap functions name arg
      return printDescription arg.description (str "  " ++ indentation) (i = 0) ++
        str "  " ++ indentation ++ text
    return str "(\n" ++ (str "\n").intercalate texts ++ str "\n" ++ indentation ++ str ")"

/-- Print the fields of a GraphQL object or interface type. -/
def printFields (fields : Dict Text GraphQLField) : Except Text Text := do
  let texts ← fields.items.zipIdx.mapM fun ((name, field), i) => do
    let args ← printArgs typeMap functions field.args (str "  ")
    return printDescription field.description (str "  ") (i = 0) ++ str "  " ++ name ++ args ++
      str ": " ++ field.type.print ++ printDeprecated field.deprecationReason
  return printBlock texts

/-! ## Types -/

/-- Print a GraphQL object or interface type. -/
def printFieldsType (keyword name : Text) (fields : Dict Text GraphQLField)
    (interfaces : List Text) (description : Option Text) : Except Text Text := do
  let fields ← printFields typeMap functions fields
  return printDescription description ++ keyword ++ str " " ++ name ++
    printImplementedInterfaces interfaces ++ fields

/-- Print a GraphQL union type. -/
def printUnion (name : Text) (types : List Text) (description : Option Text) : Text :=
  let possibleTypes :=
    if types.isEmpty then [] else str " = " ++ (str " | ").intercalate types
  printDescription description ++ str "union " ++ name ++ possibleTypes

/-- Print a GraphQL enum type. -/
def printEnum (name : Text) (values : Dict Text GraphQLEnumValue) (description : Option Text) :
    Text :=
  let values := values.items.zipIdx.map fun ((name, value), i) =>
    printDescription value.description (str "  ") (i = 0) ++ str "  " ++ name ++
      printDeprecated value.deprecationReason
  printDescription description ++ str "enum " ++ name ++ printBlock values

/-- Print a GraphQL input object type. -/
def printInputObject (name : Text) (fields : Dict Text GraphQLInputField) (isOneOf : Bool)
    (description : Option Text) : Except Text Text := do
  let fields ← fields.items.zipIdx.mapM fun ((name, field), i) => do
    let text ← printInputValue typeMap functions name field
    return printDescription field.description (str "  ") (i = 0) ++ str "  " ++ text
  return printDescription description ++ str "input " ++ name ++
    (if isOneOf then str " @oneOf" else []) ++ printBlock fields

/-- Print a named GraphQL type. -/
def printType (name : Text) : GraphQLNamedType → Except Text Text
  | .scalar description specifiedByUrl =>
      .ok (printDescription description ++ str "scalar " ++ name ++
        printSpecifiedByUrl specifiedByUrl)
  | .object fields interfaces description =>
      printFieldsType typeMap functions (str "type") name fields interfaces description
  | .interface fields interfaces description =>
      printFieldsType typeMap functions (str "interface") name fields interfaces description
  | .union types description => .ok (printUnion name types description)
  | .enum values description => .ok (printEnum name values description)
  | .inputObject fields isOneOf description =>
      printInputObject typeMap functions name fields isOneOf description

/-- Print a GraphQL directive. -/
def printDirective (directive : GraphQLDirective) : Except Text Text := do
  let args ← printArgs typeMap functions directive.args
  return printDescription directive.description ++ str "directive @" ++ directive.name ++ args ++
    printDeprecated directive.deprecationReason ++
    (if directive.isRepeatable then str " repeatable" else []) ++ str " on " ++
    (str " | ").intercalate directive.locations

end Printer

/-! ## Schemas -/

section Schemas

variable (schema : GraphQLSchema)

/-- Check whether a schema uses the default root operation type names. -/
def hasDefaultRootOperationTypes : Bool :=
  let isDefault (rootType : Option Text) (name : Text) : Bool :=
    rootType = (schema.getType name).map fun _ => name
  isDefault schema.queryType (str "Query") && isDefault schema.mutationType (str "Mutation") &&
    isDefault schema.subscriptionType (str "Subscription")

def printRootType (operation : Text) : Option Text → Text
  | none => []
  | some rootType => str "  " ++ operation ++ str ": " ++ rootType ++ str "\n"

/-- Print GraphQL schema definitions. -/
def printSchemaDefinition : Option Text :=
  -- A schema without root types has no valid definition.
  if schema.queryType.isNone && schema.mutationType.isNone && schema.subscriptionType.isNone then
    none
  -- The definition is omitted with the default names of types.
  else if schema.description.isNone && hasDefaultRootOperationTypes schema then none
  else
    some (printDescription schema.description ++ str "schema \x7b\n" ++
      printRootType (str "query") schema.queryType ++
      printRootType (str "mutation") schema.mutationType ++
      printRootType (str "subscription") schema.subscriptionType ++ str "\x7d")

/-- Check if the given named GraphQL type is a defined type. -/
def isDefinedType (name : Text) : Bool := !(isSpecifiedScalarType name || isIntrospectionType name)

/-- Print a GraphQL schema filtered by the specified directives and types. -/
def printFilteredSchema (functions : ValueFunctions) (directiveFilter : GraphQLDirective → Bool)
    (typeFilter : Text → Bool) :
    Except Text Text := do
  let directives ← (schema.directives.filter directiveFilter).mapM fun directive =>
    printDirective schema.typeMap functions directive
  let types ← (schema.typeMap.items.filter fun entry => typeFilter entry.1).mapM fun entry =>
    printType schema.typeMap functions entry.1 entry.2
  return (str "\n\n").intercalate
    ((printSchemaDefinition schema).toList ++ directives ++ types)

/-- Print the given GraphQL schema in SDL format. -/
def printSchema (functions : ValueFunctions) : Except Text Text :=
  printFilteredSchema schema functions (fun directive => !isSpecifiedDirective directive)
    isDefinedType

end Schemas

end GraphqlCore.SchemaPrinter
