import GraphqlCore.Execution.Nesting

/-!
# Responses of operations

An operation whose fragments are not spread in cycles has a response, which fits the
schema whatever the resolvers return or raise.
-/

namespace GraphqlCore.Execution

open Language Attempt

namespace Executor

variable {executor : Executor}

theorem executeRoot_completes (hpropagation : executor.errorPropagation = true)
    (depth : ℕ) (operation : OperationDefinitionNode) (rootValue : Resolved) :
    executor.Completes [] (executor.ResponseFits operation rootValue)
      (executor.executeRoot depth operation rootValue) := by
  rw [executeRoot]
  cases hroot : executor.schema.operationRootType operation.operation with
  | none => exact completes_message _
  | some rootType =>
      refine collected_completes fun c hcollected => ?_
      change executor.Completes (Path.asList []) _ _
      refine executeFields_completes hpropagation
        (collectAndExecuteSubfields_executes hpropagation depth) c fun entries hentries => ?_
      exact Or.inr ⟨rootType, c, entries, hroot, hcollected, hentries, rfl⟩

theorem Recorded.errorsFit {keys : Set PathKey} {new : List Entry} {data : Data}
    (h : executor.Recorded [] keys new)
    (hnulls : ∀ entry ∈ new, data.NullsAt [] entry.1.asList) :
    executor.ErrorsFit data { entries := new } where
  nulled entry hentry := by
    obtain ⟨position, hprefix, hnull⟩ := hnulls entry hentry
    refine ⟨position, hnull, hprefix, ?_⟩
    exact (h.located entry hentry).imp id hprefix.trans
  ordered := h.ordered

/-- The response to an exception that is raised at the root is null. -/
theorem Failed.errorsFit {keys : Set PathKey} {error : ExecutionError}
    {errors : CollectedErrors}
    (h : executor.Failed [] keys {} (.raised error) errors) :
    executor.ErrorsFit .null (errors.add error []) := by
  obtain ⟨new, hafter, hrecorded, -, houtside⟩ := h
  have hentries : errors = { entries := new } := by
    cases errors
    exact congrArg CollectedErrors.mk hafter
  have hnulls : ∀ entry ∈ new, Data.null.NullsAt [] entry.1.asList := fun entry _ =>
    nullsAt_null List.nil_prefix
  rw [hentries, CollectedErrors.add]
  split
  · exact hrecorded.errorsFit hnulls
  · constructor
    · intro entry _
      exact ⟨[], rfl, List.nil_prefix, Or.inr List.nil_prefix⟩
    · refine List.pairwise_append.mpr ⟨hrecorded.ordered, List.pairwise_singleton _ _, ?_⟩
      intro entry hentry later hlater
      obtain rfl := List.mem_singleton.mp hlater
      obtain ⟨key, -, hprefix⟩ := hrecorded.beneath entry hentry
      exact ⟨not_prefix_of_beneath hprefix, houtside entry hentry⟩

theorem executeOperation_fits (hpropagation : executor.errorPropagation = true)
    {depth : ℕ} {operation : OperationDefinitionNode} {rootValue : Resolved}
    {result : ExecutionResult}
    (h : executor.executeOperation depth operation rootValue = some result) :
    executor.ResponseFits operation rootValue result.data ∧
      executor.ErrorsFit result.data result.errors := by
  have hends := executeRoot_completes hpropagation depth operation rootValue {}
  rw [executeOperation] at h
  split at h
  · next data errors hok =>
    rw [ends_of_ok hok] at hends
    obtain ⟨hfits, new, hafter, hrecorded, hnulls⟩ := hends
    cases h
    refine ⟨hfits, ?_⟩
    have hentries : errors = { entries := new } := by
      cases errors
      exact congrArg CollectedErrors.mk hafter
    rw [hentries]
    exact hrecorded.errorsFit hnulls
  · next error errors herror =>
    rw [ends_of_error herror] at hends
    cases h
    exact ⟨Or.inl rfl, hends.errorsFit⟩
  · cases h

/-- An operation without fragment cycles has a response.  Its data is null or fits the
root type: positions of non-null types are not null, objects have the collected keys
that exist on their runtime type, in order, and lists the items that were resolved.
Every error is recorded beneath a position that is null in the data, and is located
there, unless it was raised with a path.  No error is recorded at or beneath a position
that was nulled before. -/
theorem executeOperation_conforms (hpropagation : executor.errorPropagation = true)
    (hcycles : NoFragmentCycles executor.fragments)
    (operation : OperationDefinitionNode) (rootValue : Resolved) :
    ∃ depth, ∀ depth' ≥ depth, ∃ result,
      executor.executeOperation depth' operation rootValue = some result ∧
      executor.ResponseFits operation rootValue result.data ∧
      executor.ErrorsFit result.data result.errors := by
  obtain ⟨depth, hnested⟩ := hcycles.exists_nested operation.selectionSet.selections
  refine ⟨depth, fun depth' hle => ?_⟩
  have hsome := executeOperation_isSome (hnested.mono hle) rootValue
  obtain ⟨result, hresult⟩ := Option.isSome_iff_exists.mp hsome
  exact ⟨result, hresult, executeOperation_fits hpropagation hresult⟩

end Executor

/-! ## Errors that are raised with a path -/

/-- The type `Query` with the fields `a: Int` and `b: Int`. -/
def pairSchema : GraphQLSchema where
  typeMap :=
    (Dict.empty.set (str "Query") (.object
      ((Dict.empty.set (str "a") { type := .named (str "Int") }).set (str "b")
        { type := .named (str "Int") }) [])).set (str "Int") .scalar
  queryType := some (str "Query")

def pairField (text : String) : SelectionNode :=
  .field { fieldAlias := none, name := { value := str text }, arguments := none
           directives := none, selectionSet := none, loc := none }

/-- The operation `{ a b }`. -/
def pairOperation : OperationDefinitionNode where
  operation := .query
  selectionSet := { selections := [pairField "a", pairField "b"], loc := none }

/-- The resolver of `a` raises the error, and that of `b` returns a value. -/
def pairExecutor (error : ExecutionError) : Executor where
  schema := pairSchema
  fragments := Dict.empty
  variableValues := { sources := [], coerced := Dict.empty }
  coercion :=
    { coerceInputLiteral := fun _ _ _ _ => none
      coerceInputValue := fun _ _ => none }
  resolve := fun path _ _ _ _ =>
    if path.asList = [.field (str "a")] then .error error else .ok (.other 1)
  resolveType := fun _ _ _ => .ok .none
  isTypeOf := fun _ _ _ => .ok true
  coerceOutputValue := fun _ _ _ => .ok (some (.int 1))
  inspect := fun _ => []
  describe := fun _ => []

theorem pairExecutor_noFragmentCycles (error : ExecutionError) :
    NoFragmentCycles (pairExecutor error).fragments := by
  intro name hcycle
  obtain ⟨_, hspreads, -⟩ := Relation.TransGen.head'_iff.mp hcycle
  cases hspreads.1

theorem pairOperation_conforms :
    ∃ depth, ∀ depth' ≥ depth, ∃ result,
      (pairExecutor { message := str "failed" }).executeOperation depth' pairOperation
        .none = some result ∧
      (pairExecutor { message := str "failed" }).ResponseFits pairOperation .none
        result.data ∧
      (pairExecutor { message := str "failed" }).ErrorsFit result.data result.errors :=
  Executor.executeOperation_conforms rfl (pairExecutor_noFragmentCycles _) pairOperation
    .none

/-- The resolver of `a` raises an error that has the path of `b`, where the data is not
null. -/
theorem raised_path_not_nulled :
    ∃ result, (pairExecutor { message := str "failed", path := some [.field (str "b")] }
        ).executeOperation 1 pairOperation .none = some result ∧
      ∃ error ∈ result.errors.errors, ∀ position, position <+: error.path.getD [] →
        result.data.atPath position ≠ some .null := by
  refine ⟨⟨.object [(str "a", .null), (str "b", .leaf (.int 1))], ⟨[(_, _)]⟩⟩, rfl, _,
    List.mem_cons_self, ?_⟩
  intro position hposition
  rcases List.prefix_cons_iff.mp hposition with rfl | ⟨rest, rfl, hrest⟩
  · exact nofun
  · obtain rfl := List.prefix_nil.mp hrest
    exact nofun

end GraphqlCore.Execution
