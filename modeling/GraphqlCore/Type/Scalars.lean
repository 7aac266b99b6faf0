import GraphqlCore.Type.Introspection
import GraphqlCore.Utilities.ReplaceVariables

/-!
# Scalars

The specified scalars of `type/scalars.py` that the arguments of the specified
directives have as their types: how input values and literals are coerced.  The
value or literal that the message of an error shows is left out.
-/

namespace GraphqlCore

open Language

def coerceString : Value → Outcome
  | .str inputValue => .value (.str inputValue)
  | _ => .graphQLError (str "String cannot represent a non string value: ")

/-- Parse a string value node in the AST. -/
def parseStringLiteral : ValueNode → Outcome
  | .string valueNode => .value (.str valueNode.value)
  | _ => .graphQLError (str "String cannot represent a non string value: ")

def stringFunctions : ScalarCoercion where
  coerceInputValue := coerceString
  coerceInputLiteral := some parseStringLiteral
  parseLiteral valueNode _ := parseStringLiteral valueNode

def coerceBoolean : Value → Outcome
  | .bool inputValue => .value (.bool inputValue)
  | _ => .graphQLError (str "Boolean cannot represent a non boolean value: ")

/-- Parse a boolean value node in the AST. -/
def parseBooleanLiteral : ValueNode → Outcome
  | .boolean value _ => .value (.bool value)
  | _ => .graphQLError (str "Boolean cannot represent a non boolean value: ")

def booleanFunctions : ScalarCoercion where
  coerceInputValue := coerceBoolean
  coerceInputLiteral := some parseBooleanLiteral
  parseLiteral valueNode _ := parseBooleanLiteral valueNode

/-- The types of the arguments of the specified directives, which are the same in every
schema.  They are used where no variable has a value that would be made a literal. -/
def directiveArgumentTypes : InputTypes where
  schema :=
    { typeMap := .ofList [(str "Boolean", graphQLBoolean), (str "String", graphQLString)] }
  scalars name := if name = str "Boolean" then booleanFunctions else stringFunctions
  valueToLiteral _ _ := .error (str "Cannot convert value to AST")

end GraphqlCore
