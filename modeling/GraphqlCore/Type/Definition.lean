import GraphqlCore.Data.Dict
import GraphqlCore.Language.Ast

/-!
# Type definitions

The classes of `type/definition.py` and `type/directives.py`.  The types of a
schema have different names, so a type refers to another by its name.
-/

namespace GraphqlCore

open Language

/-! ## Type references -/

/-- A reference to a type, with its wrappers. -/
inductive GraphQLType
  | named (name : Text)
  | list (ofType : GraphQLType)
  | nonNull (ofType : GraphQLType)
  deriving DecidableEq

namespace GraphQLType

/-- The type without its wrappers. -/
def getNamedType : GraphQLType → Text
  | named name => name
  | list ofType => ofType.getNamedType
  | nonNull ofType => ofType.getNamedType

/-- The text of a type. -/
def print : GraphQLType → Text
  | named name => name
  | list ofType => str "[" ++ ofType.print ++ str "]"
  | nonNull ofType => ofType.print ++ str "!"

end GraphQLType

def isNonNullType : GraphQLType → Bool
  | .nonNull _ => true
  | _ => false

/-! ## Values and input definitions -/

/-- A value of the host language, as far as it can be told apart here. -/
inductive Value
  | none
  | bool (value : Bool)
  | int (value : ℤ)
  | str (value : Text)
  | list (values : List Value)
  | dict (entries : List (Text × Value))
  | object (identity : ℕ) (truth : Bool)

/-- The truth value testing of the host language. -/
def Value.truthy : Value → Bool
  | .none => false
  | .bool value => value
  | .int value => value ≠ 0
  | .str value => !value.isEmpty
  | .list values => !values.isEmpty
  | .dict entries => !entries.isEmpty
  | .object _ truth => truth

/-- A default value, as a literal or as an external value. -/
inductive GraphQLDefaultInput
  | literal (literal : ValueNode)
  | value (value : Value)

/-- What arguments, input fields and variable signatures have in common. -/
structure InputDefinition where
  type : GraphQLType
  default : Option GraphQLDefaultInput := none
  /-- The deprecated internal default value. -/
  defaultValue : Option Value := none
  outName : Option Text := none

/-- The name of the coerced value, `out_name or name`. -/
def InputDefinition.outNameOr (input : InputDefinition) (name : Text) : Text :=
  match input.outName with
  | some (c :: rest) => c :: rest
  | _ => name

/-- Check whether the argument or input field is required. -/
def isRequiredArgument (arg : InputDefinition) : Bool :=
  isNonNullType arg.type && arg.default.isNone && arg.defaultValue.isNone

structure GraphQLArgument extends InputDefinition where
  description : Option Text := none
  deprecationReason : Option Text := none

/-- The class has the same attributes as that of arguments. -/
abbrev GraphQLInputField := GraphQLArgument

/-! ## Named types and directives -/

structure GraphQLField where
  type : GraphQLType
  args : Dict Text GraphQLArgument := Dict.empty
  description : Option Text := none
  deprecationReason : Option Text := none

structure GraphQLEnumValue where
  /-- The internal value, `none` for `Undefined`. -/
  value : Option Value := some .none
  description : Option Text := none
  deprecationReason : Option Text := none

inductive GraphQLNamedType
  | scalar (description : Option Text := none) (specifiedByUrl : Option Text := none)
  | object (fields : Dict Text GraphQLField) (interfaces : List Text)
      (description : Option Text := none)
  | interface (fields : Dict Text GraphQLField) (interfaces : List Text)
      (description : Option Text := none)
  | union (types : List Text) (description : Option Text := none)
  | enum (values : Dict Text GraphQLEnumValue := Dict.empty)
      (description : Option Text := none)
  | inputObject (fields : Dict Text GraphQLInputField := Dict.empty)
      (isOneOf : Bool := false) (description : Option Text := none)

namespace GraphQLNamedType

def isAbstractType : GraphQLNamedType → Bool
  | .interface .. => true
  | .union .. => true
  | _ => false

def isObjectType : GraphQLNamedType → Bool
  | .object .. => true
  | _ => false

def isInterfaceType : GraphQLNamedType → Bool
  | .interface .. => true
  | _ => false

/-- Scalars and enums are input and output types. -/
def isLeafType : GraphQLNamedType → Bool
  | .scalar .. => true
  | .enum .. => true
  | _ => false

def isInputType : GraphQLNamedType → Bool
  | .inputObject .. => true
  | type => type.isLeafType

def isOutputType : GraphQLNamedType → Bool
  | .inputObject .. => false
  | _ => true

/-- The interfaces that an object or interface type implements. -/
def interfaces : GraphQLNamedType → List Text
  | .object _ interfaces _ => interfaces
  | .interface _ interfaces _ => interfaces
  | _ => []

/-- The fields of an object or interface type. -/
def fields : GraphQLNamedType → Dict Text GraphQLField
  | .object fields _ _ => fields
  | .interface fields _ _ => fields
  | _ => Dict.empty

end GraphQLNamedType

structure GraphQLDirective where
  name : Text
  args : Dict Text GraphQLArgument := Dict.empty
  isRepeatable : Bool := false
  locations : List Text := []
  deprecationReason : Option Text := none
  description : Option Text := none

/-- The arguments as far as their values are concerned. -/
def inputDefinitions (args : Dict Text GraphQLArgument) : List (Text × InputDefinition) :=
  args.items.map fun entry => (entry.1, entry.2.toInputDefinition)

end GraphqlCore
