import GraphqlCore.Data.Action
import GraphqlCore.Utilities.LiteralAgreement

/-!
# Variable values

The coercion of the variables of an operation of `execution/values.py`, with
`get_variable_signature` and `type_from_ast`.  The errors that are reported are
collected until their number reaches a limit.
-/

namespace GraphqlCore.Execution

open Language

/-! ## Signatures -/

/-- The type that a type node denotes, if its name is known. -/
def typeFromAst (schema : GraphQLSchema) : TypeNode → Option GraphQLType
  | .named node => (schema.getType node.name.value).map fun _ => .named node.name.value
  | .list type _ => (typeFromAst schema type).map .list
  | .nonNull type _ => (typeFromAst schema type).map .nonNull

/-- Get a variable signature, `none` where the type is no input type. -/
def getVariableSignature (schema : GraphQLSchema) (varDefNode : VariableDefinitionNode) :
    Option GraphQLVariableSignature :=
  match typeFromAst schema varDefNode.type with
  | none => none
  | some type =>
      if schema.isInputType type then
        some {
          name := varDefNode.variableNode.name.value
          type := type
          default := varDefNode.defaultValue.map .literal }
      else none

/-! ## Reporting errors -/

inductive VariableProblem
  | notInputType
  | notProvided (type : GraphQLType)
  | invalidValue (error : InputError)
  | invalidDefault (error : InputError)
  /-- The error raised by the coercion of a default value that is valid itself. -/
  | defaultNotCoerced (type : GraphQLType)
  deriving DecidableEq

/-- An error that processing variables reports. -/
inductive VariableError
  | invalid (name : Text) (problem : VariableProblem)
  | tooMany
  deriving DecidableEq

/-- What is raised: the error after which no more are reported, which is caught at
the end and appended to the others, or anything else. -/
inductive Raised
  | tooManyErrors (errors : List VariableError)
  | other (stop : Stop)

/-- A computation that reports errors. -/
abbrev Reporting := Action (List VariableError) Raised

def onError (maxErrors : Option ℕ) (error : VariableError) : Reporting Unit := do
  let errors ← Action.get
  if maxErrors.any (· ≤ errors.length) then
    Action.throw (.tooManyErrors errors)
  else Action.set (errors ++ [error])

/-- Report the errors one after the other. -/
def onErrors (maxErrors : Option ℕ) (name : Text) : List VariableProblem → Reporting Unit
  | [] => pure ()
  | problem :: rest => do
      onError maxErrors (.invalid name problem)
      onErrors maxErrors name rest

/-! ## Coercing the variables -/

/-- The errors that validation finds in a default value. -/
def validateDefaultInput (types : InputTypes) (default : GraphQLDefaultInput)
    (type : GraphQLType) : List InputError :=
  match default with
  | .literal literal => validateInputLiteral types none none literal type []
  | .value value => validateInputValue types value type []

/-- Use the default value of the variable, if it exists. -/
def maybeUseDefaultVariable (types : InputTypes) (depth : ℕ) (maxErrors : Option ℕ)
    (coercedValues : Dict Text Value) (signature : GraphQLVariableSignature) :
    Reporting (Dict Text Value) :=
  match GraphqlCore.coerceDefaultValue types (depth + 1) signature.definition with
  | .ok none => pure coercedValues
  | .ok (some value) => pure (coercedValues.set signature.name value)
  | .error (.invalidDefault type) =>
      match signature.default with
      | none => Action.throw (.other (.invalidDefault type))
      | some default => do
          match validateDefaultInput types default signature.type with
          | [] => onErrors maxErrors signature.name [.defaultNotCoerced type]
          | errors => onErrors maxErrors signature.name (errors.map .invalidDefault)
          return coercedValues
  | .error stop => Action.throw (.other stop)

/-- Coerce the value that is given for a variable. -/
def coerceGivenVariable (types : InputTypes) (depth : ℕ) (maxErrors : Option ℕ)
    (coercedValues : Dict Text Value) (signature : GraphQLVariableSignature)
    (value : Value) : Reporting (Dict Text Value) :=
  match GraphqlCore.coerceInputValue types (GraphqlCore.coerceDefaultValue types depth)
    value signature.type with
  | .ok coercedValue => pure (coercedValues.set signature.name coercedValue)
  | .error .undefined => do
      onErrors maxErrors signature.name
        ((validateInputValue types value signature.type []).map .invalidValue)
      return coercedValues
  | .error stop => Action.throw (.other stop)

/-- What becomes of a variable for which no value is given. -/
def coerceOmittedVariable (types : InputTypes) (depth : ℕ) (maxErrors : Option ℕ)
    (coercedValues : Dict Text Value) (signature : GraphQLVariableSignature) :
    Reporting (Dict Text Value) :=
  if signature.default.isSome then
    maybeUseDefaultVariable types depth maxErrors coercedValues signature
  else if isNonNullType signature.type then do
    onErrors maxErrors signature.name [.notProvided signature.type]
    return coercedValues
  -- Non-provided values for nullable variables are omitted.
  else pure coercedValues

/-- Coerce one variable, after those that are already there. -/
def coerceVariable (types : InputTypes) (depth : ℕ) (maxErrors : Option ℕ)
    (inputs : Dict Text Value) (variableValues : VariableValues)
    (varDefNode : VariableDefinitionNode) : Reporting VariableValues :=
  match getVariableSignature types.schema varDefNode with
  | none => do
      onErrors maxErrors varDefNode.variableNode.name.value [.notInputType]
      return variableValues
  | some signature => do
      let value := inputs.get signature.name
      let coerced ← (match value with
        | some value =>
            coerceGivenVariable types depth maxErrors variableValues.coerced signature
              value
        | none =>
            coerceOmittedVariable types depth maxErrors variableValues.coerced signature)
      return {
        sources := Dict.store signature.name ⟨signature, value⟩ variableValues.sources
        coerced := coerced }

def coerceVariableValues (types : InputTypes) (depth : ℕ) (maxErrors : Option ℕ)
    (inputs : Dict Text Value) :
    List VariableDefinitionNode → VariableValues → Reporting VariableValues
  | [], variableValues => pure variableValues
  | varDefNode :: rest, variableValues => do
      let variableValues ←
        coerceVariable types depth maxErrors inputs variableValues varDefNode
      coerceVariableValues types depth maxErrors inputs rest variableValues

inductive VariableValuesOrErrors
  | values (values : VariableValues)
  | errors (errors : List VariableError)

/-- Get coerced variable values based on provided definitions, or the errors. -/
def getVariableValues (types : InputTypes) (depth : ℕ)
    (varDefNodes : List VariableDefinitionNode) (inputs : Dict Text Value)
    (maxErrors : Option ℕ) : Except Stop VariableValuesOrErrors :=
  let run := coerceVariableValues types depth maxErrors inputs varDefNodes
    { sources := [], coerced := Dict.empty } []
  match run with
  | .ok (variableValues, []) => .ok (.values variableValues)
  | .ok (_, errors) => .ok (.errors errors)
  | .error (.tooManyErrors errors) => .ok (.errors (errors ++ [.tooMany]))
  | .error (.other stop) => .error stop

/-! ## What becomes of a variable -/

section Variables

variable {types : InputTypes} {depth : ℕ} {maxErrors : Option ℕ}
variable {inputs : Dict Text Value}

/-- The value that is given for a variable, if it is given. -/
def givenValue (inputs : Dict Text Value) (varDefNode : VariableDefinitionNode) :
    Option Value :=
  inputs.get varDefNode.variableNode.name.value

/-- The definition has an error: its type is no input type, the given value or the
default value is not valid, or a value is missing. -/
def Rejected (types : InputTypes) (inputs : Dict Text Value)
    (varDefNode : VariableDefinitionNode) : Prop :=
  match getVariableSignature types.schema varDefNode with
  | none => True
  | some signature =>
      match givenValue inputs varDefNode, varDefNode.defaultValue with
      | some value, _ => ¬ Conforms types value signature.type
      | none, some literal =>
          ¬ (LiteralCoercible types none none literal signature.type ∧
            isMissingVariable literal none none = false)
      | none, none => isNonNullType signature.type

/-- The definition gives the variable a value. -/
def Provides (types : InputTypes) (inputs : Dict Text Value)
    (varDefNode : VariableDefinitionNode) : Prop :=
  match getVariableSignature types.schema varDefNode with
  | none => False
  | some signature =>
      match givenValue inputs varDefNode, varDefNode.defaultValue with
      | some value, _ => Coercible types value signature.type
      | none, some literal =>
          LiteralCoercible types none none literal signature.type ∧
            isMissingVariable literal none none = false
      | none, none => False

theorem getVariableSignature_eq_some {schema : GraphQLSchema}
    {varDefNode : VariableDefinitionNode} {signature : GraphQLVariableSignature}
    (h : getVariableSignature schema varDefNode = some signature) :
    signature.name = varDefNode.variableNode.name.value ∧
    signature.default = varDefNode.defaultValue.map .literal ∧
    schema.isInputType signature.type := by
  unfold getVariableSignature at h
  split at h
  · cases h
  · split at h
    · rename_i hinput
      cases h
      exact ⟨rfl, rfl, hinput⟩
    · cases h

/-- The values that are there afterwards, and whether there are errors. -/
def Processed (rejected : Prop) (provided : Text → Prop) (coerced : Dict Text Value)
    (errors : List VariableError) (coerced' : Dict Text Value)
    (errors' : List VariableError) : Prop :=
  (errors' = [] ↔ errors = [] ∧ ¬ rejected) ∧
  ∀ name, (coerced'.get name).isSome ↔ (coerced.get name).isSome ∨ provided name

/-- An error is raised only where there is one to report. -/
def RaisedFor (rejected : Prop) (raised : Raised) : Prop :=
  rejected ∧ ∃ errors, raised = .tooManyErrors errors

theorem onErrors_ends (name : Text) (problems : List VariableProblem)
    (errors : List VariableError) :
    Action.Ends (onErrors maxErrors name problems) errors
      (fun _ errors' => errors' = errors ++ problems.map (.invalid name))
      (RaisedFor (problems ≠ [])) := by
  induction problems generalizing errors with
  | nil => simp [onErrors]
  | cons problem rest ih =>
      rw [onErrors, onError]
      simp only [Action.ends_bind, Action.ends_get, Action.ends_ite, Action.ends_throw,
        Action.ends_set]
      constructor
      · intro _
        exact ⟨by simp, errors, rfl⟩
      · intro _
        refine (ih _).mono ?_ ?_
        · intro _ errors' herrors
          simp [herrors]
        · intro raised hraised
          exact ⟨by simp, hraised.2⟩

/-- Errors that are reported leave the values as they are. -/
theorem onErrors_processed {rejected : Prop} {name : Text}
    {problems : List VariableProblem} (h : problems ≠ [] ↔ rejected)
    (coerced : Dict Text Value) (errors : List VariableError) :
    Action.Ends (do onErrors maxErrors name problems; return coerced) errors
      (Processed rejected (fun _ => False) coerced errors) (RaisedFor rejected) := by
  simp only [Action.ends_bind, Action.ends_pure]
  refine (onErrors_ends name problems errors).mono ?_ ?_
  · intro _ errors' herrors
    subst herrors
    unfold Processed
    rw [← h]
    simp
  · intro raised hraised
    exact ⟨h.mp hraised.1, hraised.2⟩

theorem processed_set {name : Text} {value : Value} {coerced : Dict Text Value}
    {errors : List VariableError} :
    Processed False (fun name' => name' = name) coerced errors (coerced.set name value)
      errors := by
  unfold Processed
  constructor
  · simp
  · intro name'
    rw [Dict.get_set]
    split <;> simp_all

theorem coerceGivenVariable_ends (hvalid : ValidInputTypes types depth)
    {signature : GraphQLVariableSignature}
    (hinput : types.schema.isInputType signature.type) (value : Value)
    (coerced : Dict Text Value) (errors : List VariableError) :
    Action.Ends
      (coerceGivenVariable types depth maxErrors coerced signature value) errors
      (Processed (¬ Conforms types value signature.type)
        (fun name => name = signature.name ∧ Coercible types value signature.type)
        coerced errors)
      (RaisedFor (¬ Conforms types value signature.type)) := by
  have hsettles := coerceInputValue_settles hvalid value signature.type hinput
  unfold coerceGivenVariable
  cases hvalue : GraphqlCore.coerceInputValue types
      (GraphqlCore.coerceDefaultValue types depth) value signature.type with
  | ok coercedValue =>
      have hcoercible := hsettles.of_ok hvalue
      simp only [Action.ends_pure]
      simpa [hcoercible, hcoercible.1] using processed_set
  | error stop =>
      rw [hvalue] at hsettles
      obtain ⟨rfl, hnot⟩ := hsettles
      have hiff := validateInputValue_eq_nil_iff hvalid.hasInputFields value
        signature.type hinput []
      simp only [hnot, and_false]
      apply onErrors_processed
      simpa using not_congr hiff

theorem coerceOmittedVariable_ends (hvalid : ValidInputTypes types depth)
    {varDefNode : VariableDefinitionNode} {signature : GraphQLVariableSignature}
    (hsignature : getVariableSignature types.schema varDefNode = some signature)
    (homitted : givenValue inputs varDefNode = none)
    (coerced : Dict Text Value) (errors : List VariableError) :
    Action.Ends (coerceOmittedVariable types depth maxErrors coerced signature) errors
      (Processed (Rejected types inputs varDefNode)
        (fun name => name = signature.name ∧ Provides types inputs varDefNode)
        coerced errors)
      (RaisedFor (Rejected types inputs varDefNode)) := by
  obtain ⟨_, hdefault, hinput⟩ := getVariableSignature_eq_some hsignature
  unfold coerceOmittedVariable Rejected Provides
  rw [hsignature, homitted]
  cases hliteral : varDefNode.defaultValue with
  | none =>
      rw [hliteral] at hdefault
      simp only [hdefault, Option.map_none, Option.isSome_none, Bool.false_eq_true,
        if_false, and_false]
      split
      · apply onErrors_processed
        simp [*]
      · simp [Processed, *]
  | some literal =>
      rw [hliteral] at hdefault
      have hsettles := @coerceInputLiteral_settles types depth none none hvalid literal
        signature.type hinput
      simp only [hdefault, Option.map_some, Option.isSome_some, if_true]
      unfold maybeUseDefaultVariable
      rw [GraphqlCore.coerceDefaultValue]
      simp only [GraphQLVariableSignature.definition, hdefault, Option.map_some]
      cases hvalue : GraphqlCore.coerceInputLiteral types
          (GraphqlCore.coerceDefaultValue types depth) none none literal
          signature.type with
      | ok value =>
          have hcoercible := hsettles.of_ok hvalue
          simp only [Action.ends_pure]
          simpa [hcoercible] using processed_set
      | error stop =>
          rw [hvalue] at hsettles
          obtain ⟨rfl, hnot⟩ := hsettles
          simp only [hnot, and_false, not_false_eq_true]
          split
          · exact onErrors_processed (by simp) coerced errors
          · rename_i hne
            exact onErrors_processed (by simpa using hne) coerced errors

/-- The definition gives the variable of that name a value. -/
def ProvidesNamed (types : InputTypes) (inputs : Dict Text Value)
    (varDefNode : VariableDefinitionNode) (name : Text) : Prop :=
  name = varDefNode.variableNode.name.value ∧ Provides types inputs varDefNode

theorem coerceVariable_ends (hvalid : ValidInputTypes types depth)
    (varDefNode : VariableDefinitionNode) (variableValues : VariableValues)
    (errors : List VariableError) :
    Action.Ends
      (coerceVariable types depth maxErrors inputs variableValues varDefNode) errors
      (fun variableValues' => Processed (Rejected types inputs varDefNode)
        (ProvidesNamed types inputs varDefNode) variableValues.coerced errors
        variableValues'.coerced)
      (RaisedFor (Rejected types inputs varDefNode)) := by
  unfold coerceVariable
  cases hsignature : getVariableSignature types.schema varDefNode with
  | none =>
      have hrejected : Rejected types inputs varDefNode := by
        simp [Rejected, hsignature]
      have hprovides : ProvidesNamed types inputs varDefNode = fun _ => False := by
        funext name
        simp [ProvidesNamed, Provides, hsignature]
      rw [hprovides]
      have hproblems : [VariableProblem.notInputType] ≠ [] ↔
          Rejected types inputs varDefNode := by simp [hrejected]
      have hends := @onErrors_processed maxErrors _
        varDefNode.variableNode.name.value _ hproblems variableValues.coerced errors
      simp only [Action.ends_bind, Action.ends_pure] at hends ⊢
      exact hends
  | some signature =>
      obtain ⟨hname, _, hinput⟩ := getVariableSignature_eq_some hsignature
      have hprovides : ProvidesNamed types inputs varDefNode =
          fun name => name = signature.name ∧ Provides types inputs varDefNode := by
        funext name
        rw [ProvidesNamed, hname]
      simp only [Action.ends_bind, Action.ends_pure, hprovides]
      cases hgiven : inputs.get signature.name with
      | none =>
          have homitted : givenValue inputs varDefNode = none := by
            rw [givenValue, ← hname, hgiven]
          exact coerceOmittedVariable_ends hvalid hsignature homitted
            variableValues.coerced errors
      | some value =>
          have hvalue : givenValue inputs varDefNode = some value := by
            rw [givenValue, ← hname, hgiven]
          simp only [Rejected, Provides, hsignature, hvalue]
          exact coerceGivenVariable_ends hvalid hinput value variableValues.coerced errors

theorem Processed.trans {rejected rejected' : Prop} {provided provided' : Text → Prop}
    {coerced coerced' coerced'' : Dict Text Value}
    {errors errors' errors'' : List VariableError}
    (h : Processed rejected provided coerced errors coerced' errors')
    (h' : Processed rejected' provided' coerced' errors' coerced'' errors'') :
    Processed (rejected ∨ rejected') (fun name => provided name ∨ provided' name) coerced
      errors coerced'' errors'' := by
  constructor
  · rw [h'.1, h.1]
    tauto
  · intro name
    rw [h'.2, h.2]
    tauto

/-- All the variables: there are errors if a definition is rejected, and the variables
with a value are those that a definition gives one. -/
theorem coerceVariableValues_ends (hvalid : ValidInputTypes types depth)
    (varDefNodes : List VariableDefinitionNode) (variableValues : VariableValues)
    (errors : List VariableError) :
    Action.Ends
      (coerceVariableValues types depth maxErrors inputs varDefNodes variableValues)
      errors
      (fun variableValues' => Processed
        (∃ varDefNode ∈ varDefNodes, Rejected types inputs varDefNode)
        (fun name => ∃ varDefNode ∈ varDefNodes,
          ProvidesNamed types inputs varDefNode name)
        variableValues.coerced errors variableValues'.coerced)
      (RaisedFor (∃ varDefNode ∈ varDefNodes, Rejected types inputs varDefNode)) := by
  induction varDefNodes generalizing variableValues errors with
  | nil => simp [coerceVariableValues, Processed]
  | cons varDefNode rest ih =>
      rw [coerceVariableValues]
      simp only [Action.ends_bind, List.exists_mem_cons_iff]
      refine (coerceVariable_ends hvalid varDefNode variableValues errors).mono ?_ ?_
      · intro variableValues' errors' hprocessed
        refine (ih variableValues' errors').mono ?_ ?_
        · exact fun _ _ hprocessed' => hprocessed.trans hprocessed'
        · exact fun _ hraised => ⟨.inr hraised.1, hraised.2⟩
      · exact fun _ hraised => ⟨.inl hraised.1, hraised.2⟩

/-- Errors are returned, or each variable with a given or default value has a coerced
value. -/
def AllProvided (varDefNodes : List VariableDefinitionNode) (inputs : Dict Text Value) :
    Except Stop VariableValuesOrErrors → Prop
  | .ok (.values variableValues) => ∀ varDefNode ∈ varDefNodes,
      (givenValue inputs varDefNode).isSome ∨ varDefNode.defaultValue.isSome →
      (variableValues.coerced.get varDefNode.variableNode.name.value).isSome
  | .ok (.errors errors) => errors ≠ []
  | .error _ => False

theorem getVariableValues_allProvided (hvalid : ValidInputTypes types depth)
    (varDefNodes : List VariableDefinitionNode) :
    AllProvided varDefNodes inputs
        (getVariableValues types depth varDefNodes inputs maxErrors) ↔
      (∃ varDefNode ∈ varDefNodes, Rejected types inputs varDefNode) ∨
      ∀ varDefNode ∈ varDefNodes,
        (givenValue inputs varDefNode).isSome ∨ varDefNode.defaultValue.isSome →
        ∃ varDefNode' ∈ varDefNodes, ProvidesNamed types inputs varDefNode'
          varDefNode.variableNode.name.value := by
  have hends := @coerceVariableValues_ends types depth maxErrors inputs hvalid
    varDefNodes { sources := [], coerced := Dict.empty } []
  unfold Action.Ends at hends
  unfold getVariableValues
  cases hrun : coerceVariableValues types depth maxErrors inputs varDefNodes
      { sources := [], coerced := Dict.empty } [] with
  | error raised =>
      rw [hrun] at hends
      obtain ⟨hrejected, errors, rfl⟩ := hends
      simp [AllProvided, hrejected]
  | ok result =>
      obtain ⟨variableValues, errors⟩ := result
      rw [hrun] at hends
      obtain ⟨herrors, hprovided⟩ := hends
      cases errors with
      | nil =>
          have hrejected := (herrors.mp rfl).2
          simp only [Dict.get_empty, Option.isSome_none, Bool.false_eq_true,
            false_or] at hprovided
          simp only [AllProvided, hprovided, hrejected, false_or]
      | cons error rest =>
          have hrejected : ∃ varDefNode ∈ varDefNodes,
              Rejected types inputs varDefNode := by simpa using herrors
          simp [AllProvided, hrejected]

end Variables

/-! ## Agreement of coercion and validation -/

/-- A OneOf input type of a field whose enum has a value that stands for `None`. -/
def choiceTypes : InputTypes where
  schema := {
    typeMap := ⟨[
      (str "Level", .enum ⟨[(str "HIGH", { value := some (.int 9) }),
        (str "NONE", { value := some .none })], by decide⟩),
      (str "Choice", .inputObject
        ⟨[(str "level", { type := .named (str "Level") })], by decide⟩ true)],
      by decide⟩ }
  scalars := fun _ => {
    coerceInputValue := .value
    parseLiteral := fun _ _ => .undefined }
  valueToLiteral := fun _ _ => .error []

theorem choiceTypes_valid : ValidInputTypes choiceTypes 1 :=
  validInputTypes_of_check (by decide)

def choiceValue : Value := .dict [(str "level", .str (str "NONE"))]

theorem ProvidesNamed.exists_signature {types : InputTypes} {inputs : Dict Text Value}
    {varDefNode varDefNode' : VariableDefinitionNode} {value : Value}
    (h : ProvidesNamed types inputs varDefNode' varDefNode.variableNode.name.value)
    (hvalue : givenValue inputs varDefNode = some value) :
    ∃ signature, getVariableSignature types.schema varDefNode' = some signature ∧
      Coercible types value signature.type := by
  obtain ⟨hname, hprovides⟩ := h
  have hvalue' : givenValue inputs varDefNode' = some value := by
    rw [givenValue, ← hname]
    exact hvalue
  unfold Provides at hprovides
  split at hprovides
  · exact hprovides.elim
  · rename_i signature hsignature
    rw [hvalue'] at hprovides
    exact ⟨signature, hsignature, hprovides⟩

theorem choiceValue_conforms :
    Conforms choiceTypes choiceValue (.named (str "Choice")) := by
  have hlevel : Conforms choiceTypes (.str (str "NONE")) (.named (str "Level")) :=
    .leaf (by simp) rfl
  rw [choiceValue, conforms_object_iff rfl]
  refine ⟨?_, ?_, fun _ => ⟨str "level", .str (str "NONE"), rfl, by simp⟩⟩
  · intro entry hmem
    rw [List.mem_singleton.mp hmem]
    rfl
  · intro entry hmem
    rw [List.mem_singleton.mp hmem]
    constructor
    · intro _
      rfl
    · intro value hfind
      cases hfind
      exact hlevel

theorem choiceValue_losesEntry :
    LosesEntry choiceTypes choiceValue (.named (str "Choice")) :=
  .oneOf rfl rfl (by simp) rfl

/-- The definition of a variable `$choice` of that type. -/
def choiceVariable : VariableDefinitionNode where
  variableNode := { name := { value := str "choice" } }
  type := .named { name := { value := str "Choice" } }

def choiceInputs : Dict Text Value := ⟨[(str "choice", choiceValue)], by decide⟩

end GraphqlCore.Execution
