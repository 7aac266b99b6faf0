import GraphqlCore.Execution.Conformance
import Mathlib.Data.Finset.Card
import Mathlib.Logic.Relation

/-!
# Operations are not nested too deep

The executor goes down with the selection sets of the fields it collects.  Where the
fragments do not spread each other in cycles, these are nested to a depth that is known
before, so that the executor ends.
-/

set_option linter.unusedSectionVars false

namespace GraphqlCore.Execution

open Language Attempt

/-! ## Fragments without cycles -/

mutual

/-- The names of the fragments spread in the selection and the selections in it. -/
def spreadNames : SelectionNode → List Text
  | .field ⟨_, _, _, _, selectionSet, _⟩ => subselectionSpreadNames selectionSet
  | .fragmentSpread node => [node.name.value]
  | .inlineFragment ⟨_, _, ⟨selections, _⟩, _⟩ => allSpreadNames selections

def subselectionSpreadNames : Option SelectionSetNode → List Text
  | none => []
  | some ⟨selections, _⟩ => allSpreadNames selections

def allSpreadNames : List SelectionNode → List Text
  | [] => []
  | selection :: rest => spreadNames selection ++ allSpreadNames rest

end

/-- The first fragment spreads the second one. -/
def FragmentSpreads (fragments : Dict Text FragmentDetails) (name name' : Text) : Prop :=
  (fragments.get name').isSome ∧ ∃ fragment, fragments.get name = some fragment ∧
    name' ∈ allSpreadNames fragment.definition.selectionSet.selections

/-- No fragment spreads itself, directly or by way of others. -/
def NoFragmentCycles (fragments : Dict Text FragmentDetails) : Prop :=
  ∀ name, ¬ Relation.TransGen (FragmentSpreads fragments) name name

theorem wellFounded_of_acyclic {α : Type} {r : α → α → Prop} (s : Finset α)
    (hmem : ∀ a b, r a b → b ∈ s) (hacyclic : ∀ a, ¬ Relation.TransGen r a a) :
    WellFounded (flip r) := by
  classical
  let rank a := (s.filter fun b => Relation.TransGen r a b).card
  refine Subrelation.wf (r := InvImage (· < ·) rank) ?_ (InvImage.wf rank Nat.lt_wfRel.wf)
  intro b a hr
  have hstep : Relation.TransGen r a b := .single hr
  apply Finset.card_lt_card
  rw [Finset.ssubset_iff_of_subset]
  · refine ⟨b, Finset.mem_filter.mpr ⟨hmem a b hr, hstep⟩, ?_⟩
    intro hself
    exact hacyclic b (Finset.mem_filter.mp hself).2
  · intro c hc
    rw [Finset.mem_filter] at hc ⊢
    exact ⟨hc.1, hstep.trans hc.2⟩

theorem NoFragmentCycles.wellFounded {fragments : Dict Text FragmentDetails}
    (h : NoFragmentCycles fragments) : WellFounded (flip (FragmentSpreads fragments)) := by
  refine wellFounded_of_acyclic fragments.keys.toFinset ?_ h
  intro name name' hspreads
  rw [List.mem_toFinset, Dict.mem_keys_iff]
  exact hspreads.1

/-! ## The depth of selections -/

mutual

/-- The fields are nested to at most the depth, also those of the fragments. -/
inductive Nested (fragments : Dict Text FragmentDetails) :
    ℕ → List SelectionNode → Prop
  | nil {depth : ℕ} : Nested fragments depth []
  | cons {depth : ℕ} {selection : SelectionNode} {rest : List SelectionNode}
      (h : NestedSelection fragments depth selection)
      (hrest : Nested fragments depth rest) : Nested fragments depth (selection :: rest)

inductive NestedSelection (fragments : Dict Text FragmentDetails) :
    ℕ → SelectionNode → Prop
  | field {depth : ℕ} {node : FieldNode}
      (h : ∀ selectionSet, node.selectionSet = some selectionSet →
        Nested fragments depth selectionSet.selections) :
      NestedSelection fragments (depth + 1) (.field node)
  | inlineFragment {depth : ℕ} {node : InlineFragmentNode}
      (h : Nested fragments depth node.selectionSet.selections) :
      NestedSelection fragments depth (.inlineFragment node)
  | fragmentSpread {depth : ℕ} {node : FragmentSpreadNode}
      (h : ∀ fragment, fragments.get node.name.value = some fragment →
        Nested fragments depth fragment.definition.selectionSet.selections) :
      NestedSelection fragments depth (.fragmentSpread node)

end

section Depth

variable {fragments : Dict Text FragmentDetails}

mutual

theorem Nested.succ {depth : ℕ} {selections : List SelectionNode} :
    Nested fragments depth selections → Nested fragments (depth + 1) selections
  | .nil => .nil
  | .cons h hrest => .cons h.succ hrest.succ

theorem NestedSelection.succ {depth : ℕ} {selection : SelectionNode} :
    NestedSelection fragments depth selection →
      NestedSelection fragments (depth + 1) selection
  | .field h => .field fun selectionSet hset => (h selectionSet hset).succ
  | .inlineFragment h => .inlineFragment h.succ
  | .fragmentSpread h => .fragmentSpread fun fragment hget => (h fragment hget).succ

end

theorem Nested.mono {depth depth' : ℕ} {selections : List SelectionNode}
    (h : Nested fragments depth selections) (hle : depth ≤ depth') :
    Nested fragments depth' selections := by
  induction hle with
  | refl => exact h
  | step _ ih => exact ih.succ

theorem NestedSelection.mono {depth depth' : ℕ} {selection : SelectionNode}
    (h : NestedSelection fragments depth selection) (hle : depth ≤ depth') :
    NestedSelection fragments depth' selection := by
  induction hle with
  | refl => exact h
  | step _ ih => exact ih.succ

/-- The fragments that are spread have a depth. -/
def SpreadsNested (fragments : Dict Text FragmentDetails) (names : List Text) : Prop :=
  ∀ name ∈ names, ∀ fragment, fragments.get name = some fragment →
    ∃ depth, Nested fragments depth fragment.definition.selectionSet.selections

mutual

theorem exists_nestedSelection : ∀ selection,
    SpreadsNested fragments (spreadNames selection) →
      ∃ depth, NestedSelection fragments depth selection
  | .field ⟨fieldAlias, name, arguments, directives, selectionSet, loc⟩, h => by
      obtain ⟨depth, hnested⟩ := exists_nestedSubselection selectionSet h
      exact ⟨depth + 1, .field hnested⟩
  | .inlineFragment ⟨typeCondition, directives, ⟨selections, loc⟩, loc'⟩, h => by
      obtain ⟨depth, hnested⟩ := exists_nested selections h
      exact ⟨depth, .inlineFragment hnested⟩
  | .fragmentSpread node, h => by
      cases hget : fragments.get node.name.value with
      | none =>
          refine ⟨0, .fragmentSpread fun fragment hfragment => ?_⟩
          rw [hget] at hfragment
          cases hfragment
      | some fragment =>
          obtain ⟨depth, hnested⟩ := h node.name.value (by simp [spreadNames]) fragment hget
          refine ⟨depth, .fragmentSpread fun fragment' hfragment => ?_⟩
          rw [hget] at hfragment
          obtain rfl := Option.some.inj hfragment
          exact hnested

theorem exists_nestedSubselection : ∀ selectionSet,
    SpreadsNested fragments (subselectionSpreadNames selectionSet) →
      ∃ depth, ∀ selectionSet', selectionSet = some selectionSet' →
        Nested fragments depth selectionSet'.selections
  | none, _ => ⟨0, nofun⟩
  | some ⟨selections, loc⟩, h => by
      obtain ⟨depth, hnested⟩ := exists_nested selections h
      refine ⟨depth, fun selectionSet' hset => ?_⟩
      obtain rfl := Option.some.inj hset
      exact hnested

theorem exists_nested : ∀ selections,
    SpreadsNested fragments (allSpreadNames selections) →
      ∃ depth, Nested fragments depth selections
  | [], _ => ⟨0, .nil⟩
  | selection :: rest, h => by
      rw [allSpreadNames] at h
      obtain ⟨depth, hnested⟩ := exists_nestedSelection selection fun name hname =>
        h name (List.mem_append_left _ hname)
      obtain ⟨depth', hnested'⟩ := exists_nested rest fun name hname =>
        h name (List.mem_append_right _ hname)
      exact ⟨max depth depth', .cons (hnested.mono (le_max_left _ _))
        (hnested'.mono (le_max_right _ _))⟩

end

/-- Without fragment cycles, all selections are nested to some depth. -/
theorem NoFragmentCycles.exists_nested (h : NoFragmentCycles fragments)
    (selections : List SelectionNode) : ∃ depth, Nested fragments depth selections := by
  have hfragments : ∀ name fragment, fragments.get name = some fragment →
      ∃ depth, Nested fragments depth fragment.definition.selectionSet.selections := by
    intro name
    induction name using h.wellFounded.induction with
    | _ name ih =>
        intro fragment hget
        refine Execution.exists_nested _ fun name' hname' fragment' hget' => ?_
        exact ih name' ⟨by rw [hget']; rfl, fragment, hget, hname'⟩ fragment' hget'
  exact Execution.exists_nested selections fun name _ => hfragments name

end Depth

/-! ## The depth of collected fields -/

/-- The fields that were collected are nested to at most the depth. -/
def NestedFields (fragments : Dict Text FragmentDetails) (depth : ℕ)
    (fields : List (Text × List FieldDetails)) : Prop :=
  ∀ field ∈ fields, ∀ details ∈ field.2,
    NestedSelection fragments depth (.field details.node)

section Collected

variable {context : CollectFieldsContext} {depth : ℕ}

theorem NestedFields.addField {c : Collection} {details : FieldDetails}
    (h : NestedFields context.fragments depth c.groupedFieldSet.items)
    (hdetails : NestedSelection context.fragments depth (.field details.node)) :
    NestedFields context.fragments depth (c.addField details).groupedFieldSet.items := by
  rintro ⟨key, fields⟩ hfield details' hmem
  rw [Dict.mem_items_iff, Collection.addField, Dict.get_set] at hfield
  split at hfield
  · obtain rfl := Option.some.inj hfield
    rcases List.mem_append.mp hmem with hmem | hmem
    · cases hget : c.groupedFieldSet.get (getFieldEntryKey details.node) with
      | none => simp [hget] at hmem
      | some fields' =>
          rw [hget] at hmem
          exact h _ (Dict.mem_items_iff.mpr hget) details' hmem
    · obtain rfl := List.mem_singleton.mp hmem
      exact hdetails
  · exact h _ (Dict.mem_items_iff.mpr hfield) details' hmem

/-- Collecting keeps the depth of the fields. -/
def KeepsDepth (context : CollectFieldsContext) (depth : ℕ) (c : Collection)
    (result : Except CollectFailure Collection) : Prop :=
  NestedFields context.fragments depth c.groupedFieldSet.items →
    ∀ c', result = .ok c' →
      NestedFields context.fragments depth c'.groupedFieldSet.items

theorem keepsDepth_raising {α : Type} {c : Collection} {x : Except GraphQLError α}
    {f : α → Except CollectFailure Collection}
    (h : ∀ a, KeepsDepth context depth c (f a)) :
    KeepsDepth context depth c (raising x >>= f) := by
  cases x with
  | error error => exact fun _ c' hc' => nomatch hc'
  | ok a => exact h a

theorem keepsDepth_bind {c : Collection} {result : Except CollectFailure Collection}
    {f : Collection → Except CollectFailure Collection}
    (h : KeepsDepth context depth c result)
    (hf : ∀ c', KeepsDepth context depth c' (f c')) :
    KeepsDepth context depth c (result >>= f) := by
  intro hc c'' hc''
  cases result with
  | error failure => cases hc''
  | ok c' => exact hf c' (h hc c' rfl) c'' hc''

theorem keepsDepth_ok {c c' : Collection}
    (h : c'.groupedFieldSet = c.groupedFieldSet) :
    KeepsDepth context depth c (.ok c') := by
  intro hc c'' hc''
  obtain rfl := Except.ok.inj hc''
  rw [h]
  exact hc

theorem KeepsDepth.entered {c entered : Collection}
    {result : Except CollectFailure Collection}
    (h : KeepsDepth context depth entered result)
    (hentered : entered.groupedFieldSet = c.groupedFieldSet) :
    KeepsDepth context depth c result := by
  intro hc
  exact h (by rw [hentered]; exact hc)

section Visits

variable {visit : Visit}
  (hvisit : ∀ selections usage values c, Nested context.fragments depth selections →
    KeepsDepth context depth c (visit selections usage values c))

include hvisit

mutual

theorem collectSelection_keepsDepth (usage : Option DeferUsage)
    (values : Option FragmentVariableValues) : ∀ selection c,
    NestedSelection context.fragments depth selection → KeepsDepth context depth c
      (collectSelection context visit usage values selection c)
  | .field node, c, hnested => by
      rw [collectSelection]
      refine keepsDepth_raising fun answer => ?_
      obtain ⟨included, forbidden⟩ := answer
      cases included with
      | false => exact keepsDepth_ok rfl
      | true =>
          intro hc c' hc'
          obtain rfl := Except.ok.inj hc'
          exact hc.addField hnested
  | .inlineFragment ⟨typeCondition, directives, ⟨selections, _⟩, _⟩, c, hnested => by
      rw [collectSelection]
      have hselections : Nested context.fragments depth selections := by
        cases hnested with
        | inlineFragment h => exact h
      refine keepsDepth_raising fun answer => ?_
      dsimp only
      split
      · exact keepsDepth_ok rfl
      · split
        · exact keepsDepth_ok rfl
        · refine keepsDepth_raising fun newUsage => ?_
          cases newUsage with
          | none =>
              exact collectSelections_keepsDepth usage values selections c hselections
          | some newUsage =>
              exact collectSelections_keepsDepth (some newUsage) values selections
                (c.addDeferUsage newUsage) hselections
  | .fragmentSpread node, c, hnested => by
      rw [collectSelection]
      refine keepsDepth_raising fun answer => ?_
      dsimp only
      split
      · exact keepsDepth_ok rfl
      · cases hfragment : context.fragments.get node.name.value with
        | none => exact keepsDepth_ok rfl
        | some fragment =>
            have hselections : Nested context.fragments depth
                fragment.definition.selectionSet.selections := by
              cases hnested with
              | fragmentSpread h => exact h fragment hfragment
            have hentered := fun usage scope c =>
              hvisit _ usage scope c hselections
            dsimp only
            split
            · exact keepsDepth_ok rfl
            · refine keepsDepth_raising fun newUsage => ?_
              split
              · exact keepsDepth_ok rfl
              · exact keepsDepth_raising fun scope =>
                  (hentered _ _ _).entered rfl
              · exact keepsDepth_ok rfl
              · exact keepsDepth_raising fun scope =>
                  (hentered _ _ _).entered rfl

theorem collectSelections_keepsDepth (usage : Option DeferUsage)
    (values : Option FragmentVariableValues) : ∀ selections c,
    Nested context.fragments depth selections → KeepsDepth context depth c
      (collectSelections context visit usage values selections c)
  | [], c, _ => keepsDepth_ok rfl
  | selection :: rest, c, hnested => by
      rw [collectSelections]
      cases hnested with
      | cons h hrest =>
          exact keepsDepth_bind (collectSelection_keepsDepth usage values selection c h)
            fun c' => collectSelections_keepsDepth usage values rest c' hrest

end

end Visits

theorem collectFieldsImpl_keepsDepth (visits : ℕ) : ∀ selections usage values c,
    Nested context.fragments depth selections → KeepsDepth context depth c
      (collectFieldsImpl context visits selections usage values c) := by
  induction visits with
  | zero => exact fun _ _ _ _ _ _ c' hc' => nomatch hc'
  | succ visits ih =>
      exact fun selections usage values c hnested =>
        collectSelections_keepsDepth ih usage values selections c hnested

theorem nestedFields_empty :
    NestedFields context.fragments depth ({} : Collection).groupedFieldSet.items :=
  fun _ hfield => nomatch hfield

/-- The fields of the root are nested as the selections of the operation. -/
theorem collectFields_nested {selectionSet : SelectionSetNode} {c : Collection}
    (hnested : Nested context.fragments depth selectionSet.selections)
    (h : collectFields context selectionSet = .ok c) :
    NestedFields context.fragments depth c.groupedFieldSet.items :=
  collectFieldsImpl_keepsDepth _ _ _ _ _ hnested nestedFields_empty c h

/-- The fields of an object are nested less deep than the field of the object. -/
theorem collectSubfields_nested {fieldDetailsList : List FieldDetails} {c : Collection}
    (hnested : ∀ details ∈ fieldDetailsList,
      NestedSelection context.fragments (depth + 1) (.field details.node))
    (h : collectSubfields context fieldDetailsList = .ok c) :
    NestedFields context.fragments depth c.groupedFieldSet.items := by
  suffices hfold : ∀ (list : List FieldDetails) (c : Collection),
      (∀ details ∈ list,
        NestedSelection context.fragments (depth + 1) (.field details.node)) →
      KeepsDepth context depth c (list.foldlM (collectSubfieldsOf context) c) from
    hfold fieldDetailsList {} hnested nestedFields_empty c h
  intro list
  induction list with
  | nil => exact fun c _ => keepsDepth_ok rfl
  | cons details rest ih =>
      intro c hlist
      rw [List.foldlM_cons]
      refine keepsDepth_bind ?_ fun c' => ih c' fun details' hmem =>
        hlist details' (List.mem_cons_of_mem _ hmem)
      have hdetails := hlist details List.mem_cons_self
      rw [collectSubfieldsOf]
      cases hset : details.node.selectionSet with
      | none => exact keepsDepth_ok rfl
      | some selectionSet =>
          cases hdetails with
          | field hfield =>
              exact collectFieldsImpl_keepsDepth _ _ _ _ _ (hfield selectionSet hset)

theorem collectSubfields_not_tooDeep (fieldDetailsList : List FieldDetails) :
    collectSubfields context fieldDetailsList ≠ .error .tooDeep := by
  suffices hfold : ∀ (list : List FieldDetails) (c : Collection),
      c.visitsLeft context < context.depth →
      Bounded context c (list.foldlM (collectSubfieldsOf context) c) by
    intro hdeep
    have hbounded := hfold fieldDetailsList {} (initial_visitsLeft context)
    rw [collectSubfields] at hdeep
    rw [hdeep] at hbounded
    exact hbounded
  intro list
  induction list with
  | nil => exact fun c _ => le_refl (c.visitsLeft context)
  | cons details rest ih =>
      intro c hvisits
      rw [List.foldlM_cons]
      refine bounded_bind ?_ fun c' hle => ih c' (lt_of_le_of_lt hle hvisits)
      rw [collectSubfieldsOf]
      cases details.node.selectionSet with
      | none => exact le_refl (c.visitsLeft context)
      | some selectionSet => exact collectFieldsImpl_bounded _ _ _ _ _ hvisits

end Collected

/-! ## The executor goes as deep as the fields -/

namespace Executor

/-- The computation does not end early for its depth. -/
def Finishes {α : Type} (x : Run α) : Prop :=
  ∀ before, Ends x before (fun _ _ => True) (fun interruption _ => interruption ≠ .tooDeep)

section Rules

variable {α β : Type} {x : Run α} {f : α → Run β}

theorem finishes_pure (a : α) : Finishes (Pure.pure a : Run α) := fun _ => trivial

theorem finishes_raise (error : ExecutionError) : Finishes (raise error : Run α) :=
  fun _ => nofun

theorem finishes_bind (h : Finishes x) (hf : ∀ a, Finishes (f a)) :
    Finishes (x >>= f) := by
  intro before
  rw [ends_bind]
  exact (h before).mono fun a after _ => hf a after

theorem finishes_lift {ε : Type} {interrupt : ε → Interruption} {y : Except ε α}
    (h : ∀ e, y = .error e → interrupt e ≠ .tooDeep) : Finishes (.lift interrupt y) := by
  intro before
  rw [ends_lift]
  exact ⟨fun _ _ => trivial, h⟩

theorem finishes_call (y : Except ExecutionError α) : Finishes (call y) :=
  finishes_lift fun _ _ => nofun

end Rules

variable {executor : Executor}

theorem finishes_orNull {type : GraphQLType} {path : Path} {x : Run Data}
    (h : Finishes x) : Finishes (executor.orNull type path x) := by
  intro before
  rw [orNull, ends_handle]
  refine (h before).mono (fun _ _ _ => trivial) ?_
  intro interruption after hinterruption
  cases interruption with
  | tooDeep => exact absurd rfl hinterruption
  | raised error =>
      refine finishes_bind ?_ (fun _ => finishes_pure _) after
      rw [handleFieldError]
      split
      · exact finishes_raise _
      · exact fun _ => trivial

section Values

variable {executeObject : ExecuteObject} {details : List FieldDetails}
  (hobject : ∀ runtimeType position result,
    Finishes (executeObject runtimeType details position result))

include hobject

theorem completeObjectValue_finishes (name : Text) (position : Path)
    (result : Resolved) : Finishes
      (executor.completeObjectValue executeObject name details position result) := by
  rw [completeObjectValue]
  refine finishes_bind (finishes_call _) fun isTypeOf => ?_
  split
  · exact finishes_raise _
  · exact hobject name position result

theorem completeNamedValue_finishes (name : Text) (info : Info) (position : Path)
    (result : Resolved) : Finishes
      (executor.completeNamedValue executeObject name info details position result) := by
  rw [completeNamedValue]
  split
  · split
    · rw [completeLeafValue]
      refine finishes_bind (finishes_call _) fun coerced => ?_
      split
      · exact finishes_raise _
      · exact finishes_raise _
      · exact finishes_pure _
    · split
      · rw [completeAbstractValue]
        refine finishes_bind (finishes_call _) fun runtimeTypeName => ?_
        refine finishes_bind (finishes_call _) fun runtimeType => ?_
        exact completeObjectValue_finishes hobject runtimeType position result
      · split
        · exact completeObjectValue_finishes hobject name position result
        · exact finishes_raise _
  · exact finishes_raise _

omit hobject in
theorem completeItems_finishes {complete : Path → Resolved → Run Data}
    (hcomplete : ∀ position item, Finishes (complete position item))
    (itemType : GraphQLType) (failure : Option ExecutionError) (position : Path) :
    ∀ items start, Finishes
      (executor.completeItems complete itemType failure position items start)
  | [], start => by
      cases failure with
      | none => exact finishes_pure _
      | some error => exact finishes_raise _
  | item :: items, start => by
      rw [completeItems]
      refine finishes_bind (finishes_orNull (hcomplete _ item)) fun completed => ?_
      exact finishes_bind
        (completeItems_finishes hcomplete itemType failure position items (start + 1))
        fun _ => finishes_pure _

theorem completeValue_finishes (info : Info) : ∀ type position result,
    Finishes (executor.completeValue executeObject info details type position result) := by
  intro type
  induction type with
  | nonNull ofType ih =>
      intro position result
      unfold completeValue
      split
      · exact finishes_raise _
      · refine finishes_bind (ih position result) fun data => ?_
        split
        · exact finishes_raise _
        · exact finishes_pure _
  | list itemType ih =>
      intro position result
      cases result with
      | exception error => exact finishes_raise _
      | none | undefined => exact finishes_pure _
      | other identity => exact finishes_raise _
      | iterable items failure =>
          exact finishes_bind
            (completeItems_finishes ih itemType failure position items 0)
            fun _ => finishes_pure _
  | named name =>
      intro position result
      cases result with
      | exception error => exact finishes_raise _
      | none | undefined => exact finishes_pure _
      | iterable items failure =>
          exact completeNamedValue_finishes hobject name info position _
      | other identity => exact completeNamedValue_finishes hobject name info position _

theorem executeField_finishes (parentType : Text) (source : Resolved)
    (position : Path) : Finishes
      (executor.executeField executeObject parentType source details position) := by
  rw [executeField]
  split
  · exact finishes_pure _
  · refine finishes_bind (finishes_orNull ?_) fun _ => finishes_pure _
    refine finishes_bind (finishes_lift fun _ _ h => by cases h) fun args => ?_
    refine finishes_bind (finishes_call _) fun result => ?_
    exact completeValue_finishes hobject _ _ _ _

end Values

theorem executeFields_finishes {executeObject : ExecuteObject} {parentType : Text}
    {source : Resolved} {position : Path} : ∀ fields : List (Text × List FieldDetails),
    (∀ field ∈ fields, field.2 ≠ [] → ∀ runtimeType path result,
      Finishes (executeObject runtimeType field.2 path result)) →
    Finishes (executor.executeFields executeObject parentType source position fields)
  | [], _ => finishes_pure _
  | (name, details) :: fields, hobject => by
      have hfield : ∀ path, Finishes
          (executor.executeField executeObject parentType source details path) := by
        intro path
        cases details with
        | nil => exact finishes_pure _
        | cons first rest =>
            have hfirst := hobject _ List.mem_cons_self (List.cons_ne_nil first rest)
            exact executeField_finishes hfirst parentType source path
      rw [executeFields]
      refine finishes_bind (hfield _) fun result => ?_
      refine finishes_bind (executeFields_finishes fields fun field hmem =>
        hobject field (List.mem_cons_of_mem _ hmem)) fun results => ?_
      cases result with
      | none => exact finishes_pure _
      | some data => exact finishes_pure _

theorem finishes_collected {α : Type} {y : Except CollectFailure Collection}
    {f : Collection → Run α} (h : y ≠ .error .tooDeep)
    (hf : ∀ c, y = .ok c → Finishes (f c)) : Finishes (executor.collected y >>= f) := by
  intro before
  rw [ends_bind, collected, ends_lift]
  refine ⟨fun c hc => hf c hc before, fun failure hfailure => ?_⟩
  cases failure with
  | raised error => exact nofun
  | tooDeep => exact absurd hfailure h

/-- Fields of objects are executed where they are nested to the depth, by induction
on the depth. -/
theorem executeFields_finishes_of_nested (depth : ℕ) :
    ∀ (parentType : Text) (source : Resolved) (position : Path)
      (fields : List (Text × List FieldDetails)),
      NestedFields executor.fragments depth fields →
      Finishes (executor.executeFields (executor.collectAndExecuteSubfields depth)
        parentType source position fields) := by
  induction depth with
  | zero =>
      intro parentType source position fields hnested
      refine executeFields_finishes fields fun field hfield hne => ?_
      obtain ⟨details, hdetails⟩ := List.exists_mem_of_ne_nil _ hne
      cases hnested field hfield details hdetails
  | succ depth ih =>
      intro parentType source position fields hnested
      refine executeFields_finishes fields fun field hfield _ runtimeType path result => ?_
      rw [collectAndExecuteSubfields]
      refine finishes_collected (collectSubfields_not_tooDeep _) fun c hcollected => ?_
      have hc := collectSubfields_nested (hnested field hfield) hcollected
      exact finishes_bind (ih runtimeType result path _ hc) fun _ => finishes_pure _

/-- An operation is executed where its selections are nested to the depth. -/
theorem executeOperation_isSome {depth : ℕ} {operation : OperationDefinitionNode}
    (hnested : Nested executor.fragments depth operation.selectionSet.selections)
    (rootValue : Resolved) :
    (executor.executeOperation depth operation rootValue).isSome := by
  have hfinishes : Finishes (executor.executeRoot depth operation rootValue) := by
    rw [executeRoot]
    split
    · exact finishes_raise _
    · refine finishes_collected (collectFields_not_tooDeep _ _) fun c hcollected => ?_
      have hc := collectFields_nested hnested hcollected
      exact finishes_bind (executeFields_finishes_of_nested depth _ _ _ _ hc)
        fun _ => finishes_pure _
  have hends := hfinishes {}
  rw [executeOperation]
  split
  · rfl
  · rfl
  · next herror =>
    rw [ends_of_error herror] at hends
    exact absurd rfl hends

end Executor

end GraphqlCore.Execution
