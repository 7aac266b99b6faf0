import GraphqlCore.Execution.Values

/-!
# Replacing variables

The function `replace_variables` of `utilities/replace_variables.py`, and what
the coercion of literals asks of the types: scalars bring functions of their own.
How an external value is turned into a literal is left open.
-/

namespace GraphqlCore

open Language Execution

/-! ## What the types bring -/

/-- What a coercion function of a leaf type does: it returns a value, `Undefined`,
or raises an error. -/
inductive Outcome
  | value (value : Value)
  | undefined
  | graphQLError (message : Text)
  | exception (message : Text)

namespace Outcome

/-- The value, `none` for `Undefined` and where an error is caught. -/
def toOption : Outcome → Option Value
  | value v => some v
  | _ => none

end Outcome

/-- The coercion functions of a scalar.  Without a function for constant literals
the older one is used, which is given the coerced variables. -/
structure ScalarCoercion where
  coerceInputValue : Value → Outcome
  coerceInputLiteral : Option (ValueNode → Outcome) := none
  parseLiteral : ValueNode → Option (Dict Text Value) → Outcome

theorem dict_ne_none (_name : Text) (entries : List (Text × Value)) :
    Value.dict entries ≠ .none := Value.noConfusion

/-- A schema, with the functions that its types bring.  The conversion `out_type`
of an input object makes a value that is not `None`. -/
structure InputTypes where
  schema : GraphQLSchema
  scalars : Text → ScalarCoercion
  outType : Text → List (Text × Value) → Value := fun _ => .dict
  outType_ne_none : ∀ name entries, outType name entries ≠ .none := by
    exact dict_ne_none
  /-- The literal of an external value of the given type, or an exception. -/
  valueToLiteral : Option Value → GraphQLType → Except Text ValueNode

/-! ## Variables -/

/-- Retrieve the coerced variable value, `none` for `Undefined`. -/
def getCoercedVariableValue (name : Text) (variableValues : Option VariableValues)
    (fragmentVariableValues : Option FragmentVariableValues) : Option Value :=
  match fragmentVariableValues with
  | some values =>
      if (Dict.find name values.sources).isSome then values.coerced.get name
      else variableValues.bind fun values => values.coerced.get name
  | none => variableValues.bind fun values => values.coerced.get name

/-- The literal of a default value, which variable signatures have as literals. -/
def defaultLiteral (default : Option GraphQLDefaultInput) : Option ValueNode :=
  match default with
  | some (.literal literal) => some literal
  | _ => none

/-- Has the variable of an object field neither a value nor a default? -/
def isDroppedField (name : Text) (variableValues : Option VariableValues)
    (fragmentVariableValues : Option FragmentVariableValues) : Bool :=
  match fragmentVariableValues.bind fun values => Dict.find name values.sources with
  | some source => source.value.isNone && source.signature.default.isNone
  | none =>
      match variableValues.bind fun values => Dict.find name values.sources with
      | some source => source.value.isNone && source.signature.default.isNone
      | none => true

theorem sizeOf_find_lt {β : Type} [SizeOf β] {name : Text} {l : List (Text × β)}
    {v : β} (h : Dict.find name l = some v) : sizeOf v < sizeOf l := by
  induction l with
  | nil => cases h
  | cons entry rest ih =>
      obtain ⟨k, v'⟩ := entry
      rw [Dict.find] at h
      split at h
      · cases h
        simp
        omega
      · have := ih h
        simp
        omega

theorem FragmentVariableValues.sizeOf_source_lt {name : Text}
    {values : FragmentVariableValues} {source : FragmentVariableValueSource}
    (h : Dict.find name values.sources = some source) :
    sizeOf source.fragmentVariableValues < 1 + sizeOf values := by
  have hsource := sizeOf_find_lt h
  obtain ⟨sources, coerced⟩ := values
  obtain ⟨signature, value, inner⟩ := source
  simp at hsource ⊢
  omega

/-- The literal of an operation variable. -/
def replaceOperationVariable (types : InputTypes) (name : Text)
    (variableValues : Option VariableValues) : Except Text ValueNode :=
  match variableValues.bind fun values => Dict.find name values.sources with
  | none => .ok (.null none)
  | some source =>
      match source.value, defaultLiteral source.signature.default with
      | none, some literal => .ok literal
      | value, _ => types.valueToLiteral value source.signature.type

mutual

/-- Replace any variables in an AST value with literal values. -/
def replaceVariables (types : InputTypes) (valueNode : ValueNode)
    (variableValues : Option VariableValues)
    (fragmentVariableValues : Option FragmentVariableValues) :
    Except Text ValueNode :=
  match valueNode with
  | .variable node =>
      match fragmentVariableValues with
      | some values =>
          match hsource : Dict.find node.name.value values.sources with
          | some source =>
              have := FragmentVariableValues.sizeOf_source_lt hsource
              match source.value with
              | none => .ok ((defaultLiteral source.signature.default).getD (.null none))
              | some value => replaceVariables types value variableValues
                  source.fragmentVariableValues
          | none => replaceOperationVariable types node.name.value variableValues
      | none => replaceOperationVariable types node.name.value variableValues
  | .object fields _ => do
      return .object (← replaceFields types fields variableValues
        fragmentVariableValues) none
  | .list values _ => do
      return .list (← replaceItems types values variableValues
        fragmentVariableValues) none
  | valueNode => .ok valueNode
termination_by (sizeOf fragmentVariableValues, sizeOf valueNode)

def replaceFields (types : InputTypes) (fields : List ObjectFieldNode)
    (variableValues : Option VariableValues)
    (fragmentVariableValues : Option FragmentVariableValues) :
    Except Text (List ObjectFieldNode) :=
  match fields with
  | [] => .ok []
  | ⟨name, value, _⟩ :: rest =>
      let dropped := match value with
        | .variable node =>
            isDroppedField node.name.value variableValues fragmentVariableValues
        | _ => false
      if dropped then replaceFields types rest variableValues fragmentVariableValues
      else do
        let value ← replaceVariables types value variableValues
          fragmentVariableValues
        let rest ← replaceFields types rest variableValues fragmentVariableValues
        return ⟨name, value, none⟩ :: rest
termination_by (sizeOf fragmentVariableValues, sizeOf fields)

def replaceItems (types : InputTypes) (values : List ValueNode)
    (variableValues : Option VariableValues)
    (fragmentVariableValues : Option FragmentVariableValues) :
    Except Text (List ValueNode) :=
  match values with
  | [] => .ok []
  | value :: rest => do
      let value ← replaceVariables types value variableValues
        fragmentVariableValues
      let rest ← replaceItems types rest variableValues fragmentVariableValues
      return value :: rest
termination_by (sizeOf fragmentVariableValues, sizeOf values)

end

/-! ## What the types bring to it -/

theorem replaceOperationVariable_congr {old new : InputTypes}
    (h : old.valueToLiteral = new.valueToLiteral) :
    replaceOperationVariable old = replaceOperationVariable new := by
  unfold replaceOperationVariable
  rw [h]

/-- Only the conversion of external values depends on the types. -/
theorem replaceVariables_congr {old new : InputTypes}
    (h : old.valueToLiteral = new.valueToLiteral) (variableValues : Option VariableValues)
    (valueNode : ValueNode) (fragmentVariableValues : Option FragmentVariableValues) :
    replaceVariables old valueNode variableValues fragmentVariableValues =
      replaceVariables new valueNode variableValues fragmentVariableValues := by
  have hoperation := replaceOperationVariable_congr h
  refine replaceVariables.induct variableValues
    (fun valueNode values => replaceVariables old valueNode variableValues values =
      replaceVariables new valueNode variableValues values)
    (fun values fragmentValues => replaceItems old values variableValues fragmentValues =
      replaceItems new values variableValues fragmentValues)
    (fun fields fragmentValues => replaceFields old fields variableValues fragmentValues =
      replaceFields new fields variableValues fragmentValues)
    ?_ ?_ ?_ ?_ ?_ ?_ ?_ ?_ ?_ ?_ ?_ ?_ valueNode fragmentVariableValues
  · intro node values source hsource _ hvalue
    rw [replaceVariables, replaceVariables]
    split
    · next source' hfind =>
        rw [hsource] at hfind
        cases hfind
        rw [hvalue]
    · rw [hoperation]
  · intro node values source hsource _ value hvalue ih
    rw [replaceVariables, replaceVariables]
    split
    · next source' hfind =>
        rw [hsource] at hfind
        cases hfind
        rw [hvalue]
        exact ih
    · rw [hoperation]
  · intro node values hsource
    rw [replaceVariables, replaceVariables]
    split
    · next source' hfind =>
        rw [hsource] at hfind
        cases hfind
    · rw [hoperation]
  · intro node
    rw [replaceVariables, replaceVariables, hoperation]
  · intro values fields loc ih
    rw [replaceVariables, replaceVariables, ih]
  · intro values items loc ih
    rw [replaceVariables, replaceVariables, ih]
  · intro values valueNode hvariable hobject hlist
    rw [replaceVariables, replaceVariables]
    · exact hvariable
    · exact hobject
    · exact hlist
    · exact hvariable
    · exact hobject
    · exact hlist
  · intro values
    rw [replaceItems, replaceItems]
  · intro values value rest ih ihrest
    rw [replaceItems, replaceItems, ih, ihrest]
  · intro values
    rw [replaceFields, replaceFields]
  · intro values name value loc rest dropped hdropped ih
    unfold replaceFields
    exact (if_pos hdropped).trans (ih.trans (if_pos hdropped).symm)
  · intro values name value loc rest dropped hdropped ih ihrest
    unfold replaceFields
    rw [ih, ihrest]
end GraphqlCore
