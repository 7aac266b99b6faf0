import GraphqlCore.Utilities.LiteralMeaning

/-!
# The older literal converter

`value_from_ast` of `utilities/value_from_ast.py`.  It reads leaf literals with `parse_literal`,
which for the specified scalars coerces the value of the literal without its type, and it
replaces an omitted input field by the deprecated `default_value` only.
-/

namespace GraphqlCore.ValueLiterals

open Language

variable {floats : FloatFormat} {Custom : Type}

/-! ## The converter -/

section Converter

variable (types : InputTypes floats Custom) (variableValues : Variables floats)

/-- The result of `parse_literal` of a leaf type. -/
def parseLiteral (leafType : NamedInputType floats Custom) (valueNode : ValueNode) :
    Option (HostValue floats) :=
  match leafType with
  | .scalar scalar => scalar.coerceInputValue (valueFromAstUntyped variableValues valueNode)
  | .enum values => enumCoerceInputLiteral values valueNode
  | .customScalar _ => some (valueFromAstUntyped variableValues valueNode)
  | .inputObject _ _ => none

/-- What stands for a field that is omitted. -/
def useDefaultValue (field : InputField floats) : Except Stop (Option (HostValue floats)) :=
  if field.defaultValue.isUndefined then
    if isNonNullType field.type then .error .undefined else .ok none
  else .ok (some field.defaultValue)

mutual

/-- Produce a Python value given a GraphQL Value AST. -/
def valueFromAst (valueNode : ValueNode) (type : GraphQLType) :
    Except Stop (HostValue floats) :=
  match type, valueNode with
  | type, .variable node =>
      let value := variableValue variableValues node
      if value.isUndefined || value.isNone && isNonNullType type then .error .undefined
      else .ok value
  | .nonNull _, .null _ => .error .undefined
  | .nonNull ofType, valueNode => valueFromAst valueNode ofType
  | .list _, .null _ => .ok .none
  | .list itemType, .list values _ => do
      let coercedValues ← itemsFromAst values itemType
      return .iterable coercedValues
  | .list itemType, valueNode => do
      let coercedValue ← valueFromAst valueNode itemType
      return .iterable [coercedValue]
  | .named _, .null _ => .ok .none
  | .named name, valueNode =>
      match types.named name with
      | .inputObject fields isOneOf =>
          match valueNode with
          | .object fieldNodeList _ =>
              have := sizeOf_fieldNodes_lt fieldNodeList
              let nodes := fieldNodes fieldNodeList
              if nodes.any fun node => (fields.get node.1).isNone then .error .undefined
              else do
                let coercedObj ← fieldsFromAst nodes fields.items []
                if isOneOf && !isOneOfLiteral fields nodes coercedObj then
                  .error .undefined
                else return types.outType name coercedObj
          | _ => .error .undefined
      | leafType => finishLeaf (parseLiteral variableValues leafType valueNode)
termination_by (sizeOf valueNode, sizeOf type)

def itemsFromAst (values : List ValueNode) (itemType : GraphQLType) :
    Except Stop (List (HostValue floats)) :=
  match values with
  | [] => .ok []
  | itemNode :: rest => do
      let itemValue ←
        -- A missing variable is coerced to `None`, or invalid if the item type is non-null.
        (if isMissingVariable variableValues itemNode then
          if isNonNullType itemType then .error .undefined else .ok .none
        else valueFromAst itemNode itemType)
      let coercedValues ← itemsFromAst rest itemType
      return itemValue :: coercedValues
termination_by (sizeOf values, sizeOf itemType)

/-- The entries of the fields, after those that are already there. -/
def fieldsFromAst (nodes : List (Text × ValueNode)) (fields : List (Text × InputField floats))
    (coercedObj : List (Text × HostValue floats)) :
    Except Stop (List (Text × HostValue floats)) :=
  match fields with
  | [] => .ok coercedObj
  | (fieldName, field) :: rest => do
      let fieldValue ← (match _h : Dict.find fieldName nodes with
        | none => useDefaultValue field
        | some valueNode =>
            have := sizeOf_find_lt _h
            if isMissingVariable variableValues valueNode then useDefaultValue field
            else some <$> valueFromAst valueNode field.type)
      fieldsFromAst nodes rest (addField field fieldName coercedObj fieldValue)
termination_by (sizeOf nodes, sizeOf fields)

end

end Converter

end GraphqlCore.ValueLiterals
