import GraphqlCore.Execution.VariableValues

/-!
# Arguments

The function `coerce_argument` of `execution/values.py` for types with their own
coercion functions.  What it raises is told apart, also the error that the source
takes to be unreachable.
-/

namespace GraphqlCore.Execution

open Language

/-- What `coerce_argument` raises. -/
inductive ArgumentError
  | notProvided (type : GraphQLType)
  | invalidDefault (error : InputError)
  /-- The error raised by the coercion of a default value that is valid itself. -/
  | defaultNotCoerced (type : GraphQLType)
  | invalidValue (error : InputError)
  /-- The error after validation has reported none. -/
  | invalidArgument
  | other (stop : Stop)

variable (types : InputTypes) (depth : ℕ) (variableValues : Option VariableValues)
variable (fragmentVariableValues : Option FragmentVariableValues)

/-- Use the default value of the argument, if it exists. -/
def maybeUseDefaultArgument (coercedValues : Dict Text Value) (name : Text)
    (argDef : InputDefinition) : Except ArgumentError (Dict Text Value) :=
  match GraphqlCore.coerceDefaultValue types (depth + 1) argDef with
  | .ok none => .ok coercedValues
  | .ok (some value) => .ok (coercedValues.set name value)
  | .error (.invalidDefault type) =>
      match argDef.default with
      | none => .error (.other (.invalidDefault type))
      | some default =>
          match validateDefaultInput types default argDef.type with
          | [] => .error (.defaultNotCoerced type)
          | error :: _ => .error (.invalidDefault error)
  | .error stop => .error (.other stop)

/-- Coerce a single argument value into the given coerced values mapping. -/
def coerceArgumentValue (coercedValues : Dict Text Value) (argName : Text)
    (argDef : InputDefinition) (argumentNode : Option ValueNode) :
    Except ArgumentError (Dict Text Value) :=
  let outName := argDef.outNameOr argName
  match argumentNode with
  | none =>
      if isRequiredArgument argDef then .error (.notProvided argDef.type)
      else maybeUseDefaultArgument types depth coercedValues outName argDef
  | some valueNode =>
      -- A variable without a value counts as an argument that is not provided.
      if isMissingVariable valueNode variableValues fragmentVariableValues &&
          !isRequiredArgument argDef then
        maybeUseDefaultArgument types depth coercedValues outName argDef
      else
        match GraphqlCore.coerceInputLiteral types
            (GraphqlCore.coerceDefaultValue types depth) variableValues
            fragmentVariableValues valueNode argDef.type with
        | .ok coercedValue => .ok (coercedValues.set outName coercedValue)
        | .error .undefined =>
            match validateInputLiteral types variableValues fragmentVariableValues
                valueNode argDef.type [] with
            | error :: _ => .error (.invalidValue error)
            | [] => .error .invalidArgument
        | .error stop => .error (.other stop)

variable {types depth variableValues fragmentVariableValues}

theorem maybeUseDefaultArgument_ne {coercedValues : Dict Text Value} {name : Text}
    {argDef : InputDefinition} :
    maybeUseDefaultArgument types depth coercedValues name argDef ≠
      .error .invalidArgument := by
  unfold maybeUseDefaultArgument
  split
  · simp
  · simp
  · split
    · simp
    · split <;> simp
  · simp

/-- The last error is raised for a literal that is valid, but not coerced. -/
theorem coerceArgumentValue_invalidArgument_iff (hvalid : ValidInputTypes types depth)
    (hgiven : isStatic variableValues fragmentVariableValues = false)
    {valueNode : ValueNode} (hunique : UniqueFieldNames valueNode)
    {argDef : InputDefinition} (hinput : types.schema.isInputType argDef.type)
    (coercedValues : Dict Text Value) (argName : Text) :
    coerceArgumentValue types depth variableValues fragmentVariableValues coercedValues
        argName argDef (some valueNode) = .error .invalidArgument ↔
      LiteralConforms types variableValues fragmentVariableValues valueNode argDef.type ∧
      LosesLiteralEntry types variableValues fragmentVariableValues valueNode
        argDef.type := by
  have hsettles := @coerceInputLiteral_settles types depth variableValues
    fragmentVariableValues hvalid valueNode argDef.type hinput
  have hvalidated := validateInputLiteral_eq_nil_iff hvalid.hasInputFields hgiven
    valueNode argDef.type hinput hunique []
  unfold coerceArgumentValue
  simp only
  split
  · rename_i homitted
    rw [Bool.and_eq_true] at homitted
    simp only [maybeUseDefaultArgument_ne, false_iff, not_and]
    intro _ hloses
    rw [isMissingVariable_of_not hloses.isPlain.ne_variable] at homitted
    cases homitted.1
  · rename_i hprovided
    split
    · rename_i coercedValue hvalue
      have hcoercible := (hsettles.of_ok hvalue).1
      simp [hcoercible.2]
    · rename_i hvalue
      have hnot := hsettles.eq_error_iff.mp hvalue
      split
      · rename_i error rest herrors
        have hconforms : ¬ LiteralConforms types variableValues fragmentVariableValues
            valueNode argDef.type := by
          rw [← hvalidated, herrors]
          simp
        simp [hconforms]
      · rename_i herrors
        have hconforms := hvalidated.mp herrors
        simp only [hconforms, true_and, true_iff]
        by_contra hloses
        apply hnot
        refine ⟨⟨hconforms, hloses⟩, ?_⟩
        -- A variable without a value is not valid at the type of a required argument.
        by_contra hmissing
        rw [Bool.not_eq_false] at hmissing
        have hrequired : isRequiredArgument argDef = true := by
          simpa [hmissing] using hprovided
        have hnullable := (literalCoercible_missing_iff hmissing).mp ⟨hconforms, hloses⟩
        rw [isRequiredArgument_nonNull hrequired] at hnullable
        cases hnullable
    · rename_i stop hne hvalue
      rw [hvalue] at hsettles
      exact absurd hsettles.1 hne

def noVariables : VariableValues where
  sources := []
  coerced := Dict.empty

/-- The literal `{ level: NONE }`. -/
def choiceLiteral : ValueNode :=
  .object [⟨{ value := str "level" }, .enum (str "NONE") none, none⟩] none

def choiceArgument : InputDefinition where
  type := .named (str "Choice")

theorem choiceLiteral_unique : UniqueFieldNames choiceLiteral := by
  apply UniqueFieldNames.object
  · decide
  · intro field hmem
    rw [List.mem_singleton.mp hmem]
    exact .other (by simp) (by simp)

theorem noneLiteral_plain : IsPlain (.enum (str "NONE") none) := ⟨by simp, by simp⟩

theorem noneLiteral_leaf : leafInputLiteral choiceTypes (str "Level")
    (.enum (str "NONE") none) (some noVariables) none = some (.value .none) := by
  simp [leafInputLiteral, replaceVariables]
  rfl

theorem choiceLiteral_conforms :
    LiteralConforms choiceTypes (some noVariables) none choiceLiteral
      choiceArgument.type := by
  have hlevel : LiteralConforms choiceTypes (some noVariables) none
      (.enum (str "NONE") none) (.named (str "Level")) :=
    .leaf noneLiteral_plain noneLiteral_leaf
  rw [choiceLiteral, choiceArgument, literalConforms_object_iff rfl]
  refine ⟨?_, ?_, fun _ => ⟨str "level", .enum (str "NONE") none, rfl, rfl⟩⟩
  · intro node hmem
    rw [List.mem_singleton.mp hmem]
    rfl
  · intro entry hmem
    rw [List.mem_singleton.mp hmem]
    constructor
    · intro _
      rfl
    · intro valueNode hfind _
      cases hfind
      exact hlevel

theorem choiceLiteral_losesEntry :
    LosesLiteralEntry choiceTypes (some noVariables) none choiceLiteral
      choiceArgument.type := by
  apply LosesLiteralEntry.oneOf rfl rfl rfl noneLiteral_plain
  rw [literalCoercesToNone, noneLiteral_leaf]

/-- The coercion by the types, as the collection of fields asks for it. -/
def coercionOf (types : InputTypes) (depth : ℕ) : InputCoercion where
  coerceInputLiteral valueNode type variableValues fragmentVariableValues :=
    (GraphqlCore.coerceInputLiteral types (GraphqlCore.coerceDefaultValue types depth)
      variableValues fragmentVariableValues valueNode type).toOption
  coerceInputValue value type :=
    (GraphqlCore.coerceInputValue types (GraphqlCore.coerceDefaultValue types depth)
      value type).toOption

/-- The values with the default value, if there is one. -/
def withDefault (coercedValues : Dict Text Value) (name : Text) :
    Option Value → Dict Text Value
  | none => coercedValues
  | some value => coercedValues.set name value

theorem maybeUseDefaultArgument_eq_ok {coercedValues d : Dict Text Value} {name : Text}
    {argDef : InputDefinition} :
    maybeUseDefaultArgument types depth coercedValues name argDef = .ok d ↔
      ∃ value, GraphqlCore.coerceDefaultValue types (depth + 1) argDef = .ok value ∧
        withDefault coercedValues name value = d := by
  unfold maybeUseDefaultArgument
  split
  · simp [*, withDefault]
  · simp [*, withDefault]
  · split
    · simp [*]
    · split <;> simp [*]
  · simp [*]

end GraphqlCore.Execution
