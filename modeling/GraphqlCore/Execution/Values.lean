import GraphqlCore.Language.Ast
import GraphqlCore.Type.Directives
import GraphqlCore.Type.Schema

/-!
# Argument values

The coercion of arguments and fragment variables of `execution/values.py`.  How
a literal or a value is coerced at an input type is a matter of the schema (its
scalars bring their own functions) and is left open here: `InputCoercion` is any
such pair of functions.  The variables of fragments and the arguments of the
directives that are read here have no out names.
-/

namespace GraphqlCore.Execution

open Language

structure GraphQLVariableSignature where
  name : Text
  type : GraphQLType
  default : Option GraphQLDefaultInput := none

def GraphQLVariableSignature.definition (signature : GraphQLVariableSignature) :
    InputDefinition :=
  { type := signature.type, default := signature.default }

structure VariableValueSource where
  signature : GraphQLVariableSignature
  value : Option Value := none

structure VariableValues where
  sources : List (Text × VariableValueSource)
  coerced : Dict Text Value

mutual

structure FragmentVariableValues where
  sources : List (Text × FragmentVariableValueSource)
  coerced : Dict Text Value

structure FragmentVariableValueSource where
  signature : GraphQLVariableSignature
  value : Option ValueNode
  fragmentVariableValues : Option FragmentVariableValues

end

/-- Coercion to an input type, `none` where it returns `Undefined`. -/
structure InputCoercion where
  coerceInputLiteral : ValueNode → GraphQLType → Option VariableValues →
    Option FragmentVariableValues → Option Value
  coerceInputValue : Value → GraphQLType → Option Value

/-- What an argument value is rejected for. -/
inductive ArgumentProblem
  | notProvided
  | invalidDefault
  | invalidValue
  deriving DecidableEq

structure GraphQLError where
  argName : Text
  problem : ArgumentProblem
  deriving DecidableEq

variable (coercion : InputCoercion)

/-- The default value, or an error where it is not valid. -/
def coerceDefaultValue (argName : Text) (input : InputDefinition) :
    Except GraphQLError (Option Value) :=
  match input.default with
  | none => .ok input.defaultValue
  | some default =>
      let coerced := match default with
        | .literal literal =>
            coercion.coerceInputLiteral literal input.type none none
        | .value value => coercion.coerceInputValue value input.type
      match coerced with
      | none => .error { argName := argName, problem := .invalidDefault }
      | some value => .ok (some value)

def maybeUseDefaultValue (coercedValues : Dict Text Value) (name : Text)
    (input : InputDefinition) : Except GraphQLError (Dict Text Value) := do
  match ← coerceDefaultValue coercion name input with
  | none => return coercedValues
  | some value => return coercedValues.set name value

/-- Does the variable have a value in the scope it belongs to? -/
def isProvided (variableValues : VariableValues)
    (fragmentVariableValues : Option FragmentVariableValues) (name : Text) :
    Bool :=
  match fragmentVariableValues with
  | some values =>
      if (Dict.find name values.sources).isSome then
        (values.coerced.get name).isSome
      else (variableValues.coerced.get name).isSome
  | none => (variableValues.coerced.get name).isSome

/-- Coerce a single argument value into the given coerced values mapping. -/
def coerceArgument (variableValues : VariableValues)
    (fragmentVariableValues : Option FragmentVariableValues)
    (coercedValues : Dict Text Value) (argName : Text) (argDef : InputDefinition)
    (argumentNode : Option ValueNode) :
    Except GraphQLError (Dict Text Value) :=
  match argumentNode with
  | none =>
      if isRequiredArgument argDef then
        .error { argName := argName, problem := .notProvided }
      else maybeUseDefaultValue coercion coercedValues argName argDef
  | some valueNode =>
      let omitted := match valueNode with
        | .variable node =>
            !isProvided variableValues fragmentVariableValues node.name.value
        | _ => false
      -- A variable without a value counts as an argument that is not provided.
      if omitted && !isRequiredArgument argDef then
        maybeUseDefaultValue coercion coercedValues argName argDef
      else
        match coercion.coerceInputLiteral valueNode argDef.type
            (some variableValues) fragmentVariableValues with
        | none => .error { argName := argName, problem := .invalidValue }
        | some value => .ok (coercedValues.set argName value)

/-- The value of the last argument of that name. -/
def argumentNamed (arguments : List (Text × ValueNode)) (name : Text) :
    Option ValueNode :=
  Dict.find name arguments.reverse

def getArgumentValues (args : List (Text × InputDefinition))
    (arguments : List (Text × ValueNode)) (variableValues : VariableValues)
    (fragmentVariableValues : Option FragmentVariableValues) :
    Except GraphQLError (Dict Text Value) :=
  args.foldlM (fun coercedValues arg =>
    coerceArgument coercion variableValues fragmentVariableValues coercedValues
      arg.1 arg.2 (argumentNamed arguments arg.1)) Dict.empty

def namedArguments (directive : DirectiveNode) :
    List (Text × ValueNode) :=
  (directive.arguments.getD []).map fun arg => (arg.name.value, arg.value)

/-- The first directive of that name. -/
def findDirective (directives : Option (List DirectiveNode)) (name : Text) :
    Option DirectiveNode :=
  (directives.getD []).find? fun directive => directive.name.value = name

/-- The coerced arguments of a directive, if it is there. -/
def getDirectiveValues (directiveDef : GraphQLDirective)
    (directives : Option (List DirectiveNode)) (variableValues : VariableValues)
    (fragmentVariableValues : Option FragmentVariableValues) :
    Except GraphQLError (Option (Dict Text Value)) :=
  match findDirective directives directiveDef.name with
  | none => .ok none
  | some directive => do
      let values ← getArgumentValues coercion (inputDefinitions directiveDef.args)
        (namedArguments directive) variableValues
        fragmentVariableValues
      return some values

/-- The values of the fragment variables at a spread. -/
def getFragmentVariableValues (spread : FragmentSpreadNode)
    (fragmentSignatures : List (Text × GraphQLVariableSignature))
    (variableValues : VariableValues)
    (fragmentVariableValues : Option FragmentVariableValues) :
    Except GraphQLError FragmentVariableValues := do
  let arguments := (spread.arguments.getD []).map fun arg =>
    (arg.name.value, arg.value)
  let coerced ← getArgumentValues coercion
    (fragmentSignatures.map fun entry => (entry.1, entry.2.definition))
    arguments variableValues fragmentVariableValues
  let sources := fragmentSignatures.map fun entry =>
    match argumentNamed arguments entry.1 with
    | none => (entry.1, ⟨entry.2, none, none⟩)
    | some value => (entry.1, ⟨entry.2, some value, fragmentVariableValues⟩)
  return { sources := sources, coerced := coerced }

end GraphqlCore.Execution
