import GraphqlCore.Execution.CollectSpec
import Mathlib.Data.Finset.Card
import Mathlib.Logic.Relation

/-!
# Traversals of the fragments

Collecting fields with or without deferral traverses the selections and the
fragments that they spread.  The two differ only in the fragments that are visited
again.  Here such a traversal is a relation between what has been collected before
and after; `once` says that no fragment is visited again.  All results are about
operations whose fragments have no variables.
-/

namespace GraphqlCore.Execution

open Language

namespace CollectFieldsContext

variable (context : CollectFieldsContext)

/-- Whether the node is included is known. -/
def Checked (directives : Option (List DirectiveNode)) (included : Bool) : Prop :=
  ∃ forbidden, context.shouldIncludeNode none directives = .ok (included, forbidden)

/-- The fragments have no variables. -/
def NoFragmentVariables : Prop :=
  ∀ name fragment, context.fragments.get name = some fragment →
    fragment.variableSignatures = []

mutual

/-- The selection with those of an inline fragment that is included and applies. -/
def inlined : SelectionNode → List SelectionNode
  | .field node => [.field node]
  | .fragmentSpread node => [.fragmentSpread node]
  | .inlineFragment ⟨typeCondition, directives, ⟨selections, loc⟩, loc'⟩ =>
      .inlineFragment ⟨typeCondition, directives, ⟨selections, loc⟩, loc'⟩ ::
        if context.includes none directives &&
            context.doesFragmentConditionMatch typeCondition then
          inlinedAll selections
        else []

def inlinedAll : List SelectionNode → List SelectionNode
  | [] => []
  | selection :: rest => inlined selection ++ inlinedAll rest

end

/-- The spread of a fragment that is included and applies. -/
structure Follows (selections : List SelectionNode) (node : FragmentSpreadNode) :
    Prop where
  hmem : .fragmentSpread node ∈ context.inlinedAll selections
  hincluded : context.includes none node.directives
  happlicable : (context.applicable node.name.value).isSome

/-- The field node is collected from the selections or the fragments they spread. -/
inductive ReachesNode : List SelectionNode → FieldNode → Prop
  | field {selections : List SelectionNode} {node : FieldNode}
      (hmem : .field node ∈ context.inlinedAll selections)
      (hincluded : context.includes none node.directives) :
      ReachesNode selections node
  | fragmentSpread {selections : List SelectionNode} {spread : FragmentSpreadNode}
      {fragment : FragmentDetails} {node : FieldNode}
      (hfollows : context.Follows selections spread)
      (hfragment : context.applicable spread.name.value = some fragment)
      (h : ReachesNode fragment.definition.selectionSet.selections node) :
      ReachesNode selections node

end CollectFieldsContext

/-! ## Views and traversals -/

/-- What has been collected: the response keys in order, the field nodes, and the
names of the fragments that were visited. -/
@[ext]
structure View where
  keys : List Text
  nodes : FieldNode → Prop
  visited : Text → Prop

namespace View

def empty : View := ⟨[], fun _ => False, fun _ => False⟩

def addField (v : View) (node : FieldNode) : View where
  keys := OrderedSet.add v.keys (getFieldEntryKey node)
  nodes node' := v.nodes node' ∨ node' = node
  visited := v.visited

def visit (v : View) (name : Text) : View :=
  { v with visited := fun name' => v.visited name' ∨ name' = name }

/-- Everything in the first view is also in the second one. -/
structure Le (v v' : View) : Prop where
  keys : ∀ key ∈ v.keys, key ∈ v'.keys
  nodes : ∀ node, v.nodes node → v'.nodes node
  visited : ∀ name, v.visited name → v'.visited name

theorem Le.refl (v : View) : Le v v := ⟨fun _ h => h, fun _ h => h, fun _ h => h⟩

theorem Le.trans {v v' v'' : View} (h : Le v v') (h' : Le v' v'') : Le v v'' :=
  ⟨fun _ hk => h'.keys _ (h.keys _ hk), fun _ hn => h'.nodes _ (h.nodes _ hn),
    fun _ hn => h'.visited _ (h.visited _ hn)⟩

theorem le_addField (v : View) (node : FieldNode) : Le v (v.addField node) :=
  ⟨fun _ h => OrderedSet.mem_add.mpr (.inl h), fun _ h => .inl h, fun _ h => h⟩

theorem le_visit (v : View) (name : Text) : Le v (v.visit name) :=
  ⟨fun _ h => h, fun _ h => h, fun _ h => .inl h⟩

end View

open CollectFieldsContext

/-- The selections are traversed from the first view to the second one. -/
inductive Traverses (context : CollectFieldsContext) (once : Bool) :
    List SelectionNode → View → View → Prop
  | nil {v : View} : Traverses context once [] v v
  | excluded {selection : SelectionNode} {rest : List SelectionNode} {v v' : View}
      (hchecked : context.Checked selection.directives false)
      (hrest : Traverses context once rest v v') :
      Traverses context once (selection :: rest) v v'
  | field {node : FieldNode} {rest : List SelectionNode} {v v' : View}
      (hchecked : context.Checked node.directives true)
      (hrest : Traverses context once rest (v.addField node) v') :
      Traverses context once (.field node :: rest) v v'
  | noMatch {node : InlineFragmentNode} {rest : List SelectionNode} {v v' : View}
      (hchecked : context.Checked node.directives true)
      (hmatch : context.doesFragmentConditionMatch node.typeCondition = false)
      (hrest : Traverses context once rest v v') :
      Traverses context once (.inlineFragment node :: rest) v v'
  | inlineFragment {node : InlineFragmentNode} {rest : List SelectionNode}
      {v v₁ v' : View} (hchecked : context.Checked node.directives true)
      (hmatch : context.doesFragmentConditionMatch node.typeCondition = true)
      (hbody : Traverses context once node.selectionSet.selections v v₁)
      (hrest : Traverses context once rest v₁ v') :
      Traverses context once (.inlineFragment node :: rest) v v'
  | notApplicable {node : FragmentSpreadNode} {rest : List SelectionNode} {v v' : View}
      (hchecked : context.Checked node.directives true)
      (happlicable : context.applicable node.name.value = none)
      (hrest : Traverses context once rest v v') :
      Traverses context once (.fragmentSpread node :: rest) v v'
  | skipped {node : FragmentSpreadNode} {fragment : FragmentDetails}
      {rest : List SelectionNode} {v v' : View}
      (hchecked : context.Checked node.directives true)
      (happlicable : context.applicable node.name.value = some fragment)
      (hvisited : v.visited node.name.value)
      (hrest : Traverses context once rest v v') :
      Traverses context once (.fragmentSpread node :: rest) v v'
  | fragmentSpread {node : FragmentSpreadNode} {fragment : FragmentDetails}
      {rest : List SelectionNode} {v v₁ v' : View}
      (hchecked : context.Checked node.directives true)
      (happlicable : context.applicable node.name.value = some fragment)
      (hfirst : once → ¬ v.visited node.name.value)
      (hbody : Traverses context once fragment.definition.selectionSet.selections
        (v.visit node.name.value) v₁)
      (hrest : Traverses context once rest v₁ v') :
      Traverses context once (.fragmentSpread node :: rest) v v'

/-- Everything that the selections have by themselves has been collected. -/
structure Covered (context : CollectFieldsContext) (selections : List SelectionNode)
    (v : View) : Prop where
  checked : ∀ selection ∈ context.inlinedAll selections,
    ∃ included, context.Checked selection.directives included
  fields : ∀ node, .field node ∈ context.inlinedAll selections →
    context.includes none node.directives → v.nodes node ∧ getFieldEntryKey node ∈ v.keys
  spreads : ∀ node, context.Follows selections node → v.visited node.name.value

section Traversal

variable {context : CollectFieldsContext} {once : Bool}
variable {selections : List SelectionNode} {v v' : View}

theorem Traverses.le (h : Traverses context once selections v v') : View.Le v v' := by
  induction h with
  | nil => exact .refl _
  | excluded _ _ ih | noMatch _ _ _ ih | notApplicable _ _ _ ih | skipped _ _ _ _ ih =>
      exact ih
  | field _ _ ih => exact (View.le_addField _ _).trans ih
  | inlineFragment _ _ _ _ ihbody ihrest => exact ihbody.trans ihrest
  | fragmentSpread _ _ _ _ _ ihbody ihrest =>
      exact ((View.le_visit _ _).trans ihbody).trans ihrest

theorem Covered.mono (h : Covered context selections v) (hle : View.Le v v') :
    Covered context selections v' :=
  ⟨h.checked, fun node hmem hincluded =>
    ⟨hle.nodes _ (h.fields node hmem hincluded).1,
      hle.keys _ (h.fields node hmem hincluded).2⟩,
    fun node hfollows => hle.visited _ (h.spreads node hfollows)⟩

theorem Checked.includes_eq {directives : Option (List DirectiveNode)} {included : Bool}
    (h : context.Checked directives included) :
    context.includes none directives = included := by
  obtain ⟨forbidden, h⟩ := h
  exact includes_of_ok h

theorem Covered.of_subset {selections' : List SelectionNode}
    (h : Covered context selections v)
    (hsub : ∀ selection ∈ context.inlinedAll selections',
      selection ∈ context.inlinedAll selections) : Covered context selections' v :=
  ⟨fun selection hmem => h.checked selection (hsub _ hmem),
    fun node hmem => h.fields node (hsub _ hmem),
    fun node hfollows => h.spreads node ⟨hsub _ hfollows.hmem, hfollows.hincluded,
      hfollows.happlicable⟩⟩

theorem covered_nil : Covered context [] v := by
  constructor
  · exact fun _ hmem => nomatch hmem
  · exact fun _ hmem => nomatch hmem
  · exact fun _ hfollows => nomatch hfollows.hmem

theorem Covered.cons {selection : SelectionNode} {rest : List SelectionNode}
    (h : Covered context [selection] v) (hrest : Covered context rest v) :
    Covered context (selection :: rest) v := by
  have hcases : ∀ selection' ∈ context.inlinedAll (selection :: rest),
      selection' ∈ context.inlinedAll [selection] ∨
      selection' ∈ context.inlinedAll rest := by
    intro selection' hmem
    rw [inlinedAll, List.mem_append] at hmem
    rwa [inlinedAll, inlinedAll, List.append_nil]
  constructor
  · intro selection' hmem
    exact (hcases _ hmem).elim (h.checked _) (hrest.checked _)
  · intro node hmem
    exact (hcases _ hmem).elim (h.fields _) (hrest.fields _)
  · intro node hfollows
    rcases hcases _ hfollows.hmem with hmem | hmem
    · exact h.spreads node ⟨hmem, hfollows.hincluded, hfollows.happlicable⟩
    · exact hrest.spreads node ⟨hmem, hfollows.hincluded, hfollows.happlicable⟩

theorem Covered.head {selection : SelectionNode} {rest : List SelectionNode}
    (h : Covered context (selection :: rest) v) : Covered context [selection] v := by
  apply h.of_subset
  intro selection' hmem
  rw [inlinedAll, inlinedAll, List.append_nil] at hmem
  rw [inlinedAll]
  exact List.mem_append_left _ hmem

theorem Covered.tail {selection : SelectionNode} {rest : List SelectionNode}
    (h : Covered context (selection :: rest) v) : Covered context rest v := by
  apply h.of_subset
  intro selection' hmem
  rw [inlinedAll]
  exact List.mem_append_right _ hmem

theorem inlinedAll_single (selection : SelectionNode) :
    context.inlinedAll [selection] = context.inlined selection := by
  rw [inlinedAll, inlinedAll, List.append_nil]

theorem inlined_inlineFragment (node : InlineFragmentNode) :
    context.inlined (.inlineFragment node) = .inlineFragment node ::
      if context.includes none node.directives &&
          context.doesFragmentConditionMatch node.typeCondition then
        context.inlinedAll node.selectionSet.selections
      else [] := by
  obtain ⟨typeCondition, directives, ⟨selections, loc⟩, loc'⟩ := node
  rw [inlined]

/-- A selection that stands for itself only. -/
theorem covered_single {selection : SelectionNode} {included : Bool}
    (hchecked : context.Checked selection.directives included)
    (hinlined : context.inlined selection = [selection])
    (hfield : ∀ node, selection = .field node → included →
      v.nodes node ∧ getFieldEntryKey node ∈ v.keys)
    (hspread : ∀ node, selection = .fragmentSpread node → included →
      (context.applicable node.name.value).isSome → v.visited node.name.value) :
    Covered context [selection] v := by
  constructor
  · intro selection' hmem
    rw [inlinedAll_single, hinlined, List.mem_singleton] at hmem
    exact ⟨included, hmem ▸ hchecked⟩
  · intro node hmem hincluded
    rw [inlinedAll_single, hinlined, List.mem_singleton] at hmem
    subst hmem
    have hincludes := Checked.includes_eq hchecked
    simp only [SelectionNode.directives] at hincludes
    exact hfield node rfl (by rw [← hincludes, hincluded])
  · intro node hfollows
    have hmem := hfollows.hmem
    rw [inlinedAll_single, hinlined, List.mem_singleton] at hmem
    subst hmem
    have hincludes := Checked.includes_eq hchecked
    simp only [SelectionNode.directives] at hincludes
    exact hspread node rfl (by rw [← hincludes, hfollows.hincluded]) hfollows.happlicable

theorem covered_excluded {selection : SelectionNode}
    (hchecked : context.Checked selection.directives false) :
    Covered context [selection] v := by
  apply covered_single hchecked
  · cases selection with
    | field | fragmentSpread => rw [inlined]
    | inlineFragment node =>
        have hincludes := Checked.includes_eq hchecked
        simp only [SelectionNode.directives] at hincludes
        rw [inlined_inlineFragment, hincludes]
        rfl
  · intro _ _ h
    cases h
  · intro _ _ h
    cases h

theorem covered_inlineFragment {node : InlineFragmentNode}
    (hchecked : context.Checked node.directives true)
    (hmatch : context.doesFragmentConditionMatch node.typeCondition = true) :
    Covered context [.inlineFragment node] v ↔
      Covered context node.selectionSet.selections v := by
  have hinlined : context.inlinedAll [.inlineFragment node] =
      .inlineFragment node :: context.inlinedAll node.selectionSet.selections := by
    rw [inlinedAll_single, inlined_inlineFragment, Checked.includes_eq hchecked, hmatch]
    rfl
  constructor
  · intro h
    apply h.of_subset
    intro selection hmem
    rw [hinlined]
    exact List.mem_cons_of_mem _ hmem
  · intro h
    constructor
    · intro selection hmem
      rw [hinlined] at hmem
      rcases List.mem_cons.mp hmem with rfl | hmem
      · exact ⟨true, hchecked⟩
      · exact h.checked selection hmem
    · intro node' hmem
      rw [hinlined] at hmem
      rcases List.mem_cons.mp hmem with heq | hmem
      · cases heq
      · exact h.fields node' hmem
    · intro node' hfollows
      have hmem := hfollows.hmem
      rw [hinlined] at hmem
      rcases List.mem_cons.mp hmem with heq | hmem
      · cases heq
      · exact h.spreads node' ⟨hmem, hfollows.hincluded, hfollows.happlicable⟩

theorem covered_noMatch {node : InlineFragmentNode}
    (hchecked : context.Checked node.directives true)
    (hmatch : context.doesFragmentConditionMatch node.typeCondition = false) :
    Covered context [.inlineFragment node] v := by
  apply covered_single hchecked
  · rw [inlined_inlineFragment, hmatch, Bool.and_false]
    rfl
  · exact fun _ h => nomatch h
  · exact fun _ h => nomatch h

theorem covered_field {node : FieldNode} (hchecked : context.Checked node.directives true)
    (h : v.nodes node ∧ getFieldEntryKey node ∈ v.keys) :
    Covered context [.field node] v := by
  apply @covered_single _ _ (.field node) _ hchecked
  · rw [inlined]
  · rintro node' heq _
    cases heq
    exact h
  · exact fun _ h => nomatch h

theorem covered_fragmentSpread {node : FragmentSpreadNode}
    (hchecked : context.Checked node.directives true)
    (h : (context.applicable node.name.value).isSome → v.visited node.name.value) :
    Covered context [.fragmentSpread node] v := by
  apply @covered_single _ _ (.fragmentSpread node) _ hchecked
  · rw [inlined]
  · exact fun _ h => nomatch h
  · rintro node' heq _ happlicable
    cases heq
    exact h happlicable

/-- A traversal collects what the selections have by themselves. -/
theorem Traverses.covered (h : Traverses context once selections v v') :
    Covered context selections v' := by
  induction h with
  | nil => exact covered_nil
  | excluded hchecked _ ih => exact (covered_excluded hchecked).cons ih
  | field hchecked hrest ih =>
      apply Covered.cons _ ih
      exact covered_field hchecked ⟨hrest.le.nodes _ (.inr rfl),
        hrest.le.keys _ (OrderedSet.mem_add.mpr (.inr rfl))⟩
  | noMatch hchecked hmatch _ ih => exact (covered_noMatch hchecked hmatch).cons ih
  | inlineFragment hchecked hmatch _ hrest ihbody ihrest =>
      apply Covered.cons _ ihrest
      exact (covered_inlineFragment hchecked hmatch).mpr (ihbody.mono hrest.le)
  | notApplicable hchecked happlicable _ ih =>
      exact (covered_fragmentSpread hchecked fun h => by
        rw [happlicable] at h
        cases h).cons ih
  | skipped hchecked _ hvisited hrest ih =>
      exact (covered_fragmentSpread hchecked fun _ =>
        hrest.le.visited _ hvisited).cons ih
  | fragmentSpread hchecked _ _ hbody hrest _ ih =>
      exact (covered_fragmentSpread hchecked fun _ =>
        hrest.le.visited _ (hbody.le.visited _ (.inr rfl))).cons ih

/-- The fragments that a traversal visits first are covered after it. -/
theorem Traverses.newly (h : Traverses context once selections v v') {name : Text}
    {fragment : FragmentDetails} (hfragment : context.applicable name = some fragment)
    (hnew : v'.visited name) (hold : ¬ v.visited name) :
    Covered context fragment.definition.selectionSet.selections v' := by
  induction h with
  | nil => exact absurd hnew hold
  | excluded _ _ ih | noMatch _ _ _ ih | notApplicable _ _ _ ih | skipped _ _ _ _ ih =>
      exact ih hnew hold
  | field _ _ ih => exact ih hnew hold
  | @inlineFragment _ _ _ v₁ _ _ _ _ hrest ihbody ihrest =>
      by_cases hbetween : v₁.visited name
      · exact (ihbody hbetween hold).mono hrest.le
      · exact ihrest hnew hbetween
  | @fragmentSpread node fragment' _ v v₁ _ _ happlicable _ hbody hrest ihbody ihrest =>
      by_cases hbetween : v₁.visited name
      · by_cases hname : name = node.name.value
        · subst hname
          rw [happlicable] at hfragment
          cases hfragment
          exact hbody.covered.mono hrest.le
        · apply Covered.mono _ hrest.le
          apply ihbody hbetween
          rintro (h | h)
          · exact hold h
          · exact hname h
      · exact ihrest hnew hbetween

end Traversal

/-! ## The collected nodes -/

section Nodes

variable {context : CollectFieldsContext} {once : Bool}
variable {selections selections' : List SelectionNode} {v v' : View}

theorem CollectFieldsContext.ReachesNode.of_subset {node : FieldNode}
    (h : context.ReachesNode selections node)
    (hsub : ∀ selection ∈ context.inlinedAll selections,
      selection ∈ context.inlinedAll selections') :
    context.ReachesNode selections' node := by
  cases h with
  | field hmem hincluded => exact .field (hsub _ hmem) hincluded
  | fragmentSpread hfollows hfragment h =>
      exact .fragmentSpread ⟨hsub _ hfollows.hmem, hfollows.hincluded,
        hfollows.happlicable⟩ hfragment h

theorem CollectFieldsContext.ReachesNode.tail {selection : SelectionNode} {node : FieldNode}
    (h : context.ReachesNode selections node) :
    context.ReachesNode (selection :: selections) node := by
  apply h.of_subset
  intro selection' hmem
  rw [inlinedAll]
  exact List.mem_append_right _ hmem

theorem CollectFieldsContext.ReachesNode.inlineFragment {inlineFragment : InlineFragmentNode}
    {node : FieldNode} (hchecked : context.Checked inlineFragment.directives true)
    (hmatch : context.doesFragmentConditionMatch inlineFragment.typeCondition = true)
    (h : context.ReachesNode inlineFragment.selectionSet.selections node) :
    context.ReachesNode (.inlineFragment inlineFragment :: selections) node := by
  apply h.of_subset
  intro selection hmem
  rw [inlinedAll, inlined_inlineFragment, Checked.includes_eq hchecked, hmatch]
  exact List.mem_append_left _ (List.mem_cons_of_mem _ hmem)

/-- Only nodes that are reached are collected. -/
theorem Traverses.reaches (h : Traverses context once selections v v') {node : FieldNode}
    (hnode : v'.nodes node) : v.nodes node ∨ context.ReachesNode selections node := by
  induction h with
  | nil => exact .inl hnode
  | excluded _ _ ih | noMatch _ _ _ ih | notApplicable _ _ _ ih | skipped _ _ _ _ ih =>
      exact (ih hnode).imp_right .tail
  | field hchecked _ ih =>
      rcases ih hnode with (h | rfl) | h
      · exact .inl h
      · apply Or.inr
        apply ReachesNode.field
        · rw [inlinedAll, inlined]
          exact List.mem_cons_self
        · exact Checked.includes_eq hchecked
      · exact .inr h.tail
  | inlineFragment hchecked hmatch _ _ ihbody ihrest =>
      rcases ihrest hnode with h | h
      · exact (ihbody h).imp_right (.inlineFragment hchecked hmatch)
      · exact .inr h.tail
  | @fragmentSpread spread _ rest _ _ _ hchecked happlicable _ _ _ ihbody ihrest =>
      rcases ihrest hnode with h | h
      · apply (ihbody h).imp_right
        have hfollows : context.Follows (.fragmentSpread spread :: rest) spread := by
          constructor
          · rw [inlinedAll, inlined]
            exact List.mem_cons_self
          · exact Checked.includes_eq hchecked
          · rw [happlicable]
            rfl
        exact .fragmentSpread hfollows happlicable
      · exact .inr h.tail

/-- All fragments that were visited are covered. -/
def Closed (context : CollectFieldsContext) (v : View) : Prop :=
  ∀ name fragment, v.visited name → context.applicable name = some fragment →
    Covered context fragment.definition.selectionSet.selections v

/-- All nodes that are reached from what is covered are collected. -/
theorem CollectFieldsContext.ReachesNode.collected {node : FieldNode}
    (h : context.ReachesNode selections node) (hclosed : Closed context v)
    (hcovered : Covered context selections v) : v.nodes node := by
  induction h with
  | field hmem hincluded => exact (hcovered.fields _ hmem hincluded).1
  | fragmentSpread hfollows hfragment _ ih =>
      exact ih (hclosed _ _ (hcovered.spreads _ hfollows) hfragment)

theorem Traverses.closed (h : Traverses context once selections View.empty v) :
    Closed context v :=
  fun _ _ hvisited hfragment => h.newly hfragment hvisited id

/-- A traversal collects the nodes that are reached. -/
theorem Traverses.nodes_iff (h : Traverses context once selections View.empty v)
    (node : FieldNode) : v.nodes node ↔ context.ReachesNode selections node := by
  constructor
  · intro hnode
    exact (h.reaches hnode).resolve_left id
  · intro hreaches
    exact hreaches.collected h.closed h.covered

/-- The response keys are those of the nodes. -/
def View.Indexed (v : View) : Prop :=
  ∀ key, key ∈ v.keys ↔ ∃ node, v.nodes node ∧ getFieldEntryKey node = key

theorem View.indexed_empty : View.empty.Indexed := by
  intro key
  constructor
  · exact fun h => nomatch h
  · rintro ⟨_, h, _⟩
    exact h.elim

theorem View.Indexed.addField (h : v.Indexed) (node : FieldNode) :
    (v.addField node).Indexed := by
  intro key
  unfold View.addField
  rw [OrderedSet.mem_add, h key]
  constructor
  · rintro (⟨node', hnode, hkey⟩ | rfl)
    · exact ⟨node', .inl hnode, hkey⟩
    · exact ⟨node, .inr rfl, rfl⟩
  · rintro ⟨node', hnode | rfl, hkey⟩
    · exact .inl ⟨node', hnode, hkey⟩
    · exact .inr hkey.symm

theorem Traverses.indexed (h : Traverses context once selections v v')
    (hv : v.Indexed) : v'.Indexed := by
  induction h with
  | nil => exact hv
  | excluded _ _ ih | noMatch _ _ _ ih | notApplicable _ _ _ ih | skipped _ _ _ _ ih =>
      exact ih hv
  | field _ _ ih => exact ih (hv.addField _)
  | inlineFragment _ _ _ _ ihbody ihrest => exact ihrest (ihbody hv)
  | fragmentSpread _ _ _ _ _ ihbody ihrest => exact ihrest (ihbody hv)

end Nodes

/-! ## The order of the response keys -/

/-- The spread of a fragment within another. -/
def CollectFieldsContext.SpreadsIn (context : CollectFieldsContext) (name name' : Text) :
    Prop :=
  ∃ fragment node, context.applicable name = some fragment ∧
    context.Follows fragment.definition.selectionSet.selections node ∧
    node.name.value = name'

/-- No fragment spreads itself, directly or by way of others. -/
def CollectFieldsContext.Acyclic (context : CollectFieldsContext) : Prop :=
  ∀ name, ¬ Relation.TransGen context.SpreadsIn name name

section Order

variable {context : CollectFieldsContext}

open Classical in
/-- The number of fragments that a fragment spreads. -/
noncomputable def rank (context : CollectFieldsContext) (name : Text) : ℕ :=
  (context.fragments.keys.toFinset.filter fun name' =>
    Relation.TransGen context.SpreadsIn name name').card

theorem mem_keys_of_applicable {name : Text}
    (h : (context.applicable name).isSome) : name ∈ context.fragments.keys := by
  obtain ⟨fragment, hfragment⟩ := Option.isSome_iff_exists.mp h
  rw [Dict.mem_keys_iff, get_of_applicable hfragment]
  rfl

theorem rank_lt_of_spreadsIn (hacyclic : context.Acyclic) {name name' : Text}
    (h : context.SpreadsIn name name') : rank context name' < rank context name := by
  classical
  have hstep : Relation.TransGen context.SpreadsIn name name' := .single h
  apply Finset.card_lt_card
  rw [Finset.ssubset_iff_of_subset]
  · refine ⟨name', ?_, ?_⟩
    · obtain ⟨_, node, _, hfollows, hname⟩ := h
      rw [Finset.mem_filter, List.mem_toFinset]
      exact ⟨mem_keys_of_applicable (hname ▸ hfollows.happlicable), hstep⟩
    · intro hmem
      exact hacyclic name' (Finset.mem_filter.mp hmem).2
  · intro name'' hmem
    rw [Finset.mem_filter] at hmem ⊢
    exact ⟨hmem.1, hstep.trans hmem.2⟩

/-- The fragments spread in the selections have a lower rank. -/
def Below (context : CollectFieldsContext) (selections : List SelectionNode) (r : ℕ) :
    Prop :=
  ∀ node, context.Follows selections node → rank context node.name.value < r

/-- The fragments of a lower rank that were visited are covered. -/
def CoveredBelow (context : CollectFieldsContext) (r : ℕ) (v : View) : Prop :=
  ∀ name fragment, v.visited name → rank context name < r →
    context.applicable name = some fragment →
    Covered context fragment.definition.selectionSet.selections v

variable {once : Bool} {selections : List SelectionNode} {v v' : View} {r : ℕ}

theorem CoveredBelow.traverses (h : CoveredBelow context r v)
    (htraverses : Traverses context once selections v v') : CoveredBelow context r v' := by
  intro name fragment hvisited hrank hfragment
  by_cases hold : v.visited name
  · exact (h name fragment hold hrank hfragment).mono htraverses.le
  · exact htraverses.newly hfragment hvisited hold

theorem CoveredBelow.addField {node : FieldNode} (h : CoveredBelow context r v) :
    CoveredBelow context r (v.addField node) :=
  fun name fragment hvisited hrank hfragment =>
    (h name fragment hvisited hrank hfragment).mono (View.le_addField v node)

/-- Within a fragment its own selections need not be covered. -/
theorem CoveredBelow.visit {name : Text} (h : CoveredBelow context r v)
    (hrank : rank context name < r) :
    CoveredBelow context (rank context name) (v.visit name) := by
  intro name' fragment hvisited hrank' hfragment
  rcases hvisited with hvisited | rfl
  · exact (h name' fragment hvisited (hrank'.trans hrank) hfragment).mono
      (View.le_visit v name)
  · exact absurd hrank' (lt_irrefl _)

theorem below_fragment (hacyclic : context.Acyclic) {name : Text}
    {fragment : FragmentDetails} (hfragment : context.applicable name = some fragment) :
    Below context fragment.definition.selectionSet.selections (rank context name) := by
  intro node hfollows
  exact rank_lt_of_spreadsIn hacyclic ⟨fragment, node, hfragment, hfollows, rfl⟩

theorem Below.of_subset {selections' : List SelectionNode}
    (h : Below context selections r)
    (hsub : ∀ selection ∈ context.inlinedAll selections',
      selection ∈ context.inlinedAll selections) : Below context selections' r :=
  fun node hfollows => h node ⟨hsub _ hfollows.hmem, hfollows.hincluded,
    hfollows.happlicable⟩

theorem Below.tail {selection : SelectionNode} {rest : List SelectionNode}
    (h : Below context (selection :: rest) r) : Below context rest r := by
  apply h.of_subset
  intro selection' hmem
  rw [inlinedAll]
  exact List.mem_append_right _ hmem

theorem Below.inlineFragment {node : InlineFragmentNode} {rest : List SelectionNode}
    (h : Below context (.inlineFragment node :: rest) r)
    (hchecked : context.Checked node.directives true)
    (hmatch : context.doesFragmentConditionMatch node.typeCondition = true) :
    Below context node.selectionSet.selections r := by
  apply h.of_subset
  intro selection hmem
  rw [inlinedAll, inlined_inlineFragment, Checked.includes_eq hchecked, hmatch]
  exact List.mem_append_left _ (List.mem_cons_of_mem _ hmem)

theorem follows_head {node : FragmentSpreadNode} {fragment : FragmentDetails}
    {rest : List SelectionNode} (hchecked : context.Checked node.directives true)
    (happlicable : context.applicable node.name.value = some fragment) :
    context.Follows (.fragmentSpread node :: rest) node := by
  constructor
  · rw [inlinedAll, inlined]
    exact List.mem_cons_self
  · exact Checked.includes_eq hchecked
  · rw [happlicable]
    rfl

/-- Traversing what is covered adds no keys and visits no new fragments. -/
theorem Traverses.quiet (hacyclic : context.Acyclic)
    (h : Traverses context once selections v v') (hcovered : Covered context selections v)
    (hbelow : Below context selections r) (hcoveredBelow : CoveredBelow context r v) :
    v'.keys = v.keys ∧ v'.visited = v.visited := by
  induction h generalizing r with
  | nil => exact ⟨rfl, rfl⟩
  | excluded _ _ ih | noMatch _ _ _ ih | notApplicable _ _ _ ih | skipped _ _ _ _ ih =>
      exact ih hcovered.tail hbelow.tail hcoveredBelow
  | @field node _ v _ hchecked _ ih =>
      have hkey : getFieldEntryKey node ∈ v.keys := by
        apply (hcovered.fields node _ (Checked.includes_eq hchecked)).2
        rw [inlinedAll, inlined]
        exact List.mem_cons_self
      have hrest := ih (hcovered.tail.mono (View.le_addField _ _)) hbelow.tail
        hcoveredBelow.addField
      rw [hrest.1, hrest.2]
      exact ⟨OrderedSet.add_of_mem hkey, rfl⟩
  | inlineFragment hchecked hmatch hbody _ ihbody ihrest =>
      have hfirst := ihbody ((covered_inlineFragment hchecked hmatch).mp hcovered.head)
        (hbelow.inlineFragment hchecked hmatch) hcoveredBelow
      have hrest := ihrest (hcovered.tail.mono hbody.le) hbelow.tail
        (hcoveredBelow.traverses hbody)
      exact ⟨hrest.1.trans hfirst.1, hrest.2.trans hfirst.2⟩
  | @fragmentSpread node fragment _ v _ _ hchecked happlicable _ hbody _ ihbody ihrest =>
      have hfollows := @follows_head _ _ _ [] hchecked happlicable
      have hvisited : v.visited node.name.value := hcovered.head.spreads node hfollows
      have hrank : rank context node.name.value < r :=
        hbelow node (follows_head hchecked happlicable)
      have hsame : v.visit node.name.value = v := by
        ext name
        · rfl
        · rfl
        · exact ⟨fun h => h.elim id fun h => h ▸ hvisited, .inl⟩
      have hfragment : Covered context fragment.definition.selectionSet.selections
          (v.visit node.name.value) := by
        rw [hsame]
        exact hcoveredBelow _ _ hvisited hrank happlicable
      have hfirst := ihbody hfragment (below_fragment hacyclic happlicable)
        (hcoveredBelow.visit hrank)
      have hcoveredBelow' : CoveredBelow context r (v.visit node.name.value) := by
        rwa [hsame]
      have hrest := ihrest
        (hcovered.tail.mono ((View.le_visit _ _).trans hbody.le)) hbelow.tail
        (hcoveredBelow'.traverses hbody)
      rw [hsame] at hfirst
      exact ⟨hrest.1.trans hfirst.1, hrest.2.trans hfirst.2⟩

theorem CollectFieldsContext.Checked.unique {directives : Option (List DirectiveNode)}
    {included included' : Bool} (h : context.Checked directives included)
    (h' : context.Checked directives included') : included = included' := by
  rw [← Checked.includes_eq h, Checked.includes_eq h']

/-- The keys and the visited fragments are the same. -/
structure View.Alike (v w : View) : Prop where
  keys : v.keys = w.keys
  visited : v.visited = w.visited

theorem View.Alike.addField {v w : View} (h : View.Alike v w) (node : FieldNode) :
    View.Alike (v.addField node) (w.addField node) :=
  ⟨congrArg (OrderedSet.add · _) h.keys, h.visited⟩

theorem View.Alike.visit {v w : View} (h : View.Alike v w) (name : Text) :
    View.Alike (v.visit name) (w.visit name) := by
  refine ⟨h.keys, ?_⟩
  unfold View.visit
  rw [h.visited]

/-- Fragments that are visited again do not change the order of the keys. -/
theorem Traverses.alike (hacyclic : context.Acyclic)
    (h : Traverses context false selections v v') {w w' : View}
    (h' : Traverses context true selections w w') (halike : View.Alike v w)
    (hbelow : Below context selections r) (hcoveredBelow : CoveredBelow context r v) :
    View.Alike v' w' := by
  induction h generalizing w w' r with
  | nil =>
      cases h'
      exact halike
  | excluded hchecked _ ih =>
      cases h' with
      | excluded _ hrest' => exact ih hrest' halike hbelow.tail hcoveredBelow
      | field hchecked' | noMatch hchecked' | inlineFragment hchecked'
        | notApplicable hchecked' | skipped hchecked' | fragmentSpread hchecked' =>
          exact absurd (hchecked.unique hchecked') Bool.false_ne_true
  | field hchecked _ ih =>
      cases h' with
      | excluded hchecked' =>
          exact absurd (hchecked'.unique hchecked) Bool.false_ne_true
      | field _ hrest' =>
          exact ih hrest' (halike.addField _) hbelow.tail hcoveredBelow.addField
  | noMatch hchecked hmatch _ ih =>
      cases h' with
      | excluded hchecked' =>
          exact absurd (hchecked'.unique hchecked) Bool.false_ne_true
      | noMatch _ _ hrest' => exact ih hrest' halike hbelow.tail hcoveredBelow
      | inlineFragment _ hmatch' =>
          rw [hmatch] at hmatch'
          cases hmatch'
  | inlineFragment hchecked hmatch hbody _ ihbody ihrest =>
      cases h' with
      | excluded hchecked' =>
          exact absurd (hchecked'.unique hchecked) Bool.false_ne_true
      | noMatch _ hmatch' =>
          rw [hmatch] at hmatch'
          cases hmatch'
      | inlineFragment _ _ hbody' hrest' =>
          have hfirst := ihbody hbody' halike (hbelow.inlineFragment hchecked hmatch)
            hcoveredBelow
          exact ihrest hrest' hfirst hbelow.tail (hcoveredBelow.traverses hbody)
  | notApplicable hchecked happlicable _ ih =>
      cases h' with
      | excluded hchecked' =>
          exact absurd (hchecked'.unique hchecked) Bool.false_ne_true
      | notApplicable _ _ hrest' => exact ih hrest' halike hbelow.tail hcoveredBelow
      | skipped _ happlicable' | fragmentSpread _ happlicable' =>
          rw [happlicable] at happlicable'
          cases happlicable'
  | skipped hchecked happlicable hvisited _ ih =>
      cases h' with
      | excluded hchecked' =>
          exact absurd (hchecked'.unique hchecked) Bool.false_ne_true
      | notApplicable _ happlicable' =>
          rw [happlicable] at happlicable'
          cases happlicable'
      | skipped _ _ _ hrest' => exact ih hrest' halike hbelow.tail hcoveredBelow
      | fragmentSpread _ _ hfirst' =>
          rw [halike.visited] at hvisited
          exact absurd hvisited (hfirst' rfl)
  | @fragmentSpread node fragment _ v _ _ hchecked happlicable _ hbody _ ihbody ihrest =>
      have hrank : rank context node.name.value < r :=
        hbelow node (follows_head hchecked happlicable)
      have hfragment := below_fragment hacyclic happlicable
      have hcoveredBelow' := hcoveredBelow.visit hrank
      cases h' with
      | excluded hchecked' =>
          exact absurd (hchecked'.unique hchecked) Bool.false_ne_true
      | notApplicable _ happlicable' =>
          rw [happlicable] at happlicable'
          cases happlicable'
      | skipped _ happlicable' hvisited hrest' =>
          -- The fragment is visited again: nothing new is found in it.
          rw [← halike.visited] at hvisited
          have hcovered := (hcoveredBelow _ _ hvisited hrank happlicable).mono
            (View.le_visit v node.name.value)
          have hquiet := hbody.quiet hacyclic hcovered hfragment hcoveredBelow'
          have hsame : (v.visit node.name.value).visited = v.visited := by
            funext name
            exact propext ⟨fun h => h.elim id fun h => h ▸ hvisited, .inl⟩
          apply ihrest hrest' _ hbelow.tail
          · apply CoveredBelow.traverses _ hbody
            intro name fragment' hvisited' hrank' hfragment'
            rw [hsame] at hvisited'
            exact (hcoveredBelow name fragment' hvisited' hrank' hfragment').mono
              (View.le_visit v node.name.value)
          · exact ⟨hquiet.1.trans halike.keys,
              (hquiet.2.trans hsame).trans halike.visited⟩
      | fragmentSpread _ happlicable' hfirst' hbody' hrest' =>
          rw [happlicable] at happlicable'
          cases happlicable'
          have hfirst := ihbody hbody' (halike.visit _) hfragment hcoveredBelow'
          apply ihrest hrest' hfirst hbelow.tail
          intro name fragment' hvisited' hrank' hfragment'
          by_cases hname : name = node.name.value
          · subst hname
            rw [happlicable] at hfragment'
            cases hfragment'
            exact hbody.covered
          · by_cases hold : v.visited name
            · exact ((hcoveredBelow name fragment' hold hrank' hfragment').mono
                (View.le_visit v _)).mono hbody.le
            · exact hbody.newly hfragment' hvisited' fun h => h.elim hold hname

theorem below_card (selections : List SelectionNode) :
    Below context selections (context.fragments.keys.toFinset.card + 1) := by
  intro node _
  classical
  unfold rank
  exact Nat.lt_succ_of_le (Finset.card_filter_le _ _)

theorem Traverses.keys_eq (hacyclic : context.Acyclic)
    (h : Traverses context false selections View.empty v)
    (h' : Traverses context true selections View.empty v') : v.keys = v'.keys := by
  have halike := h.alike hacyclic h' ⟨rfl, rfl⟩ (below_card selections)
    fun _ _ hvisited => hvisited.elim
  exact halike.keys

end Order

end GraphqlCore.Execution
