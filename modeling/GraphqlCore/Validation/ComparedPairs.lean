import GraphqlCore.Validation.FieldMaps

/-!
# Compared pairs

The pairs that the rule records before it compares them, and what has to be compared for
such a pair.  At the end of a run without conflicts, all of that has been compared.
-/

namespace GraphqlCore.Validation

open Language Attempt

/-! ## Sets of pairs -/

theorem textLe_total : ∀ a b : Text, textLe a b ∨ textLe b a
  | [], _ => .inl (by rw [textLe])
  | _ :: _, [] => .inr (by rw [textLe])
  | c :: rest, c' :: rest' => by
      simp only [textLe, Bool.or_eq_true, Bool.and_eq_true, decide_eq_true_eq]
      rcases Nat.lt_trichotomy c c' with hlt | rfl | hlt
      · exact .inl (.inl hlt)
      · exact (textLe_total rest rest').imp (fun h => .inr ⟨rfl, h⟩) (fun h => .inr ⟨rfl, h⟩)
      · exact .inr (.inl hlt)

theorem textLe_antisymm : ∀ {a b : Text}, textLe a b → textLe b a → a = b
  | [], [], _, _ => rfl
  | [], _ :: _, _, h => by
      rw [textLe] at h
      cases h
  | _ :: _, [], h, _ => by
      rw [textLe] at h
      cases h
  | c :: rest, c' :: rest', h, h' => by
      simp only [textLe, Bool.or_eq_true, Bool.and_eq_true, decide_eq_true_eq] at h h'
      obtain rfl : c = c' := by omega
      have hrest : textLe rest rest' := by
        rcases h with hlt | ⟨-, hle⟩
        · omega
        · exact hle
      have hrest' : textLe rest' rest := by
        rcases h' with hlt | ⟨-, hle⟩
        · omega
        · exact hle
      rw [textLe_antisymm hrest hrest']

namespace OrderedPairSet

variable {α : Type} [DecidableEq α] {pairs : OrderedPairSet α} {a a' : α} {b b' : Text}

theorem has_weaken (h : pairs.has a b false) (exclusive : Bool) : pairs.has a b exclusive := by
  cases exclusive with
  | false => exact h
  | true =>
      unfold has at h ⊢
      cases hget : pairs.get (a, b) with
      | none =>
          rw [hget] at h
          cases h
      | some result => rfl

theorem has_add_self (pairs : OrderedPairSet α) (a : α) (b : Text) (exclusive : Bool) :
    (pairs.add a b exclusive).has a b exclusive := by
  unfold has add
  rw [Dict.get_set, if_pos rfl]
  cases exclusive <;> rfl

/-- A pair that is recorded anew stays recorded as it was, or more strongly. -/
theorem has_add_of_has {exclusive exclusive' : Bool} (hnew : pairs.has a b exclusive = false)
    (h : pairs.has a' b' exclusive') : (pairs.add a b exclusive).has a' b' exclusive' := by
  by_cases heq : (a', b') = (a, b)
  · obtain ⟨rfl, rfl⟩ := Prod.mk.inj heq
    cases exclusive' with
    | true => 
        unfold has add
        rw [Dict.get_set, if_pos rfl]
        rfl
    | false =>
        rw [has_weaken h] at hnew
        cases hnew
  · unfold has add at *
    rw [Dict.get_set, if_neg heq]
    exact h

theorem has_of_has_add {exclusive exclusive' : Bool}
    (h : (pairs.add a b exclusive).has a' b' exclusive') :
    pairs.has a' b' exclusive' ∨ a' = a ∧ b' = b ∧ (exclusive → exclusive') := by
  by_cases heq : (a', b') = (a, b)
  · obtain ⟨rfl, rfl⟩ := Prod.mk.inj heq
    refine .inr ⟨rfl, rfl, fun hexclusive => ?_⟩
    unfold has add at h
    rw [Dict.get_set, if_pos rfl, hexclusive] at h
    cases exclusive' <;> first | rfl | cases h
  · left
    unfold has add at *
    rw [Dict.get_set, if_neg heq] at h
    exact h

end OrderedPairSet

namespace PairSet

theorem sorted_comm (a b : Text) : sorted a b = sorted b a := by
  unfold sorted
  split
  · next hle =>
    split
    · next hle' => rw [textLe_antisymm hle hle']
    · rfl
  · next hnot =>
    rw [if_pos ((textLe_total a b).resolve_right hnot)]

theorem sorted_cases (a b : Text) : sorted a b = (a, b) ∨ sorted a b = (b, a) := by
  unfold sorted
  split
  · exact .inr rfl
  · exact .inl rfl

theorem eq_or_swapped {a b a' b' : Text} (h : sorted a' b' = sorted a b) :
    a' = a ∧ b' = b ∨ a' = b ∧ b' = a := by
  rcases sorted_cases a b with heq | heq <;> rcases sorted_cases a' b' with heq' | heq' <;>
    rw [heq, heq'] at h <;> obtain ⟨rfl, rfl⟩ := Prod.mk.inj h <;> simp

theorem has_comm (pairs : PairSet) (a b : Text) (exclusive : Bool) :
    PairSet.has pairs a b exclusive = PairSet.has pairs b a exclusive := by
  rw [has, has, sorted_comm]

end PairSet

/-! ## What is recorded in a state -/

/-- The selection set has been compared with the fragment of the conflict key. -/
def HasFragment (s : MergeState) (set : SelectionSetNode) (key : Text) (exclusive : Bool) : Prop :=
  s.comparedFieldsAndFragmentPairs.has set key exclusive

/-- The two fragments are the same or have been compared. -/
def HasFragments (s : MergeState) (key1 key2 : Text) (exclusive : Bool) : Prop :=
  key1 = key2 ∨ PairSet.has s.comparedFragmentPairs key1 key2 exclusive

theorem HasFragments.symm {s : MergeState} {key1 key2 : Text} {exclusive : Bool}
    (h : HasFragments s key1 key2 exclusive) : HasFragments s key2 key1 exclusive := by
  refine h.imp Eq.symm fun hhas => ?_
  rw [PairSet.has_comm]
  exact hhas

/-- Nothing that has been recorded is lost. -/
structure Extends (s s' : MergeState) : Prop where
  fragment : ∀ set key exclusive, HasFragment s set key exclusive → HasFragment s' set key exclusive
  fragments : ∀ key1 key2 exclusive,
    HasFragments s key1 key2 exclusive → HasFragments s' key1 key2 exclusive

theorem Extends.refl (s : MergeState) : Extends s s := ⟨fun _ _ _ h => h, fun _ _ _ h => h⟩

theorem Extends.trans {s s' s'' : MergeState} (h : Extends s s') (h' : Extends s' s'') :
    Extends s s'' where
  fragment _ _ _ hhas := h'.fragment _ _ _ (h.fragment _ _ _ hhas)
  fragments _ _ _ hhas := h'.fragments _ _ _ (h.fragments _ _ _ hhas)

theorem SamePairs.extends {s s' : MergeState} (h : ParentTypes.SamePairs s s') : Extends s s' where
  fragment set key exclusive hhas := by
    rw [HasFragment, h.fieldsAndFragments]
    exact hhas
  fragments key1 key2 exclusive hhas := by
    rw [HasFragments, h.fragments]
    exact hhas

/-! ## What has been compared -/

variable {context : ValidationContext}

/-- What is asked of a pair of fields alone: it holds where the rule finds no conflict of the
fields themselves, with variables that can occur. -/
structure OwnCheck (types : ParentTypes context) (V : VarMap → Prop) where
  holds : Bool → NodeAndDef → NodeAndDef → Prop
  of_none : ∀ exclusive field1 varMap1 field2 varMap2, V varMap1 → V varMap2 →
    findFieldConflict context.schema exclusive field1 varMap1 field2 varMap2 = none →
    holds exclusive (field1.plain context) (field2.plain context)
  weaken : ∀ exclusive field1 field2, holds false field1 field2 → holds exclusive field1 field2
  refl : ∀ set ∈ documentSets context.document, ∀ field ∈ types.fields set, ∀ exclusive,
    holds exclusive field field
  symm : ∀ set1 ∈ documentSets context.document, ∀ field1 ∈ types.fields set1,
    ∀ set2 ∈ documentSets context.document, ∀ field2 ∈ types.fields set2, ∀ exclusive,
    holds exclusive field1 field2 → holds exclusive field2 field1

/-- The spreads of two selection sets have been compared with each other and with the
selection sets. -/
structure SpreadsCompared (context : ValidationContext) (s : MergeState) (exclusive : Bool)
    (set1 set2 : SelectionSetNode) : Prop where
  inFront : ∀ node ∈ allDirectSpreads set2.selections,
    HasFragment s set1 (conflictKey context node) exclusive
  behind : ∀ node ∈ allDirectSpreads set1.selections,
    HasFragment s set2 (conflictKey context node) exclusive
  both : ∀ node1 ∈ allDirectSpreads set1.selections, ∀ node2 ∈ allDirectSpreads set2.selections,
    HasFragments s (conflictKey context node1) (conflictKey context node2) exclusive

/-- Two fields do not conflict, as far as the state tells. -/
inductive PairCompared (types : ParentTypes context) {V : VarMap → Prop} (own : OwnCheck types V)
    (s : MergeState) : Bool → NodeAndDef → NodeAndDef → Prop
  | intro {exclusive : Bool} {field1 field2 : NodeAndDef}
      (hown : own.holds (exclusiveWith context exclusive field1 field2) field1 field2)
      (hfields : ∀ set1 set2, field1.node.selectionSet = some set1 →
        field2.node.selectionSet = some set2 →
        ∀ subfield1 ∈ types.fields set1, ∀ subfield2 ∈ types.fields set2,
          SameResponseName subfield1 subfield2 →
          PairCompared types own s (exclusiveWith context exclusive field1 field2) subfield1
            subfield2)
      (hspreads : ∀ set1 set2, field1.node.selectionSet = some set1 →
        field2.node.selectionSet = some set2 →
        SpreadsCompared context s (exclusiveWith context exclusive field1 field2) set1 set2) :
      PairCompared types own s exclusive field1 field2

section Compared

variable {types : ParentTypes context} {V : VarMap → Prop} {own : OwnCheck types V}
  {s s' : MergeState}

theorem SpreadsCompared.mono {exclusive : Bool} {set1 set2 : SelectionSetNode}
    (h : SpreadsCompared context s exclusive set1 set2) (hextends : Extends s s') :
    SpreadsCompared context s' exclusive set1 set2 where
  inFront node hnode := hextends.fragment _ _ _ (h.inFront node hnode)
  behind node hnode := hextends.fragment _ _ _ (h.behind node hnode)
  both node1 hnode1 node2 hnode2 := hextends.fragments _ _ _ (h.both node1 hnode1 node2 hnode2)

theorem HasFragment.weaken {set : SelectionSetNode} {key : Text}
    (h : HasFragment s set key false) (exclusive : Bool) : HasFragment s set key exclusive :=
  OrderedPairSet.has_weaken h exclusive

theorem HasFragments.weaken {key1 key2 : Text} (h : HasFragments s key1 key2 false)
    (exclusive : Bool) : HasFragments s key1 key2 exclusive :=
  h.imp_right fun hhas => OrderedPairSet.has_weaken hhas exclusive

theorem SpreadsCompared.weaken {set1 set2 : SelectionSetNode}
    (h : SpreadsCompared context s false set1 set2) (exclusive : Bool) :
    SpreadsCompared context s exclusive set1 set2 where
  inFront node hnode := (h.inFront node hnode).weaken exclusive
  behind node hnode := (h.behind node hnode).weaken exclusive
  both node1 hnode1 node2 hnode2 := (h.both node1 hnode1 node2 hnode2).weaken exclusive

theorem PairCompared.mono {exclusive : Bool} {field1 field2 : NodeAndDef}
    (h : PairCompared types own s exclusive field1 field2) (hextends : Extends s s') :
    PairCompared types own s' exclusive field1 field2 := by
  induction h with
  | intro hown _ hspreads ih =>
      exact .intro hown ih fun set1 set2 h1 h2 => (hspreads set1 set2 h1 h2).mono hextends

/-- What has been compared as not exclusive need not be compared as exclusive. -/
theorem PairCompared.weaken {exclusive : Bool} {field1 field2 : NodeAndDef}
    (h : PairCompared types own s exclusive field1 field2) (exclusive' : Bool) :
    PairCompared types own s (exclusive || exclusive') field1 field2 := by
  induction h with
  | @intro exclusive field1 field2 hown _ hspreads ih =>
      have hflag : exclusiveWith context (exclusive || exclusive') field1 field2 =
          (exclusiveWith context exclusive field1 field2 || exclusive') := by
        rw [exclusiveWith, exclusiveWith, Bool.or_right_comm]
      refine .intro ?_ ?_ ?_
      · rw [hflag]
        cases hexclusive : exclusiveWith context exclusive field1 field2 with
        | true =>
            rw [hexclusive] at hown
            exact hown
        | false =>
            rw [hexclusive] at hown
            exact own.weaken _ _ _ hown
      · rw [hflag]
        exact ih
      · intro set1 set2 h1 h2
        have hcompared := hspreads set1 set2 h1 h2
        rw [hflag]
        cases hexclusive : exclusiveWith context exclusive field1 field2 with
        | true =>
            rw [hexclusive] at hcompared
            exact hcompared
        | false =>
            rw [hexclusive] at hcompared
            exact hcompared.weaken _

/-! ## What has to be compared for a recorded pair -/

/-- All fields of the one selection set with those of the other. -/
def FieldsCompared (own : OwnCheck types V) (s : MergeState) (exclusive : Bool)
    (set1 set2 : SelectionSetNode) : Prop :=
  ∀ field1 ∈ types.fields set1, ∀ field2 ∈ types.fields set2, SameResponseName field1 field2 →
    PairCompared types own s exclusive field1 field2

theorem FieldsCompared.mono {exclusive : Bool} {set1 set2 : SelectionSetNode}
    (h : FieldsCompared own s exclusive set1 set2) (hextends : Extends s s') :
    FieldsCompared own s' exclusive set1 set2 := fun field1 h1 field2 h2 hname =>
  (h field1 h1 field2 h2 hname).mono hextends

theorem FieldsCompared.weaken {set1 set2 : SelectionSetNode}
    (h : FieldsCompared own s false set1 set2) (exclusive : Bool) :
    FieldsCompared own s exclusive set1 set2 := fun field1 h1 field2 h2 hname =>
  (h field1 h1 field2 h2 hname).weaken exclusive

/-- The selection set with the fields of the fragment, and with the fragments that it
spreads, unless it is the selection set of the fragment. -/
def FragmentCompared (own : OwnCheck types V) (s : MergeState) (exclusive : Bool)
    (set fragmentSet : SelectionSetNode) : Prop :=
  set = fragmentSet ∨ FieldsCompared own s exclusive set fragmentSet ∧
    ∀ node ∈ allDirectSpreads fragmentSet.selections,
      HasFragment s set (conflictKey context node) exclusive

/-- The fields of the one fragment with those of the other, in either order, and each
fragment with those that the other one spreads. -/
structure FragmentsCompared (own : OwnCheck types V) (s : MergeState) (exclusive : Bool)
    (key1 : Text) (set1 : SelectionSetNode) (key2 : Text) (set2 : SelectionSetNode) : Prop where
  fields : FieldsCompared own s exclusive set1 set2 ∨ FieldsCompared own s exclusive set2 set1
  spreads2 : ∀ node ∈ allDirectSpreads set2.selections,
    HasFragments s key1 (conflictKey context node) exclusive
  spreads1 : ∀ node ∈ allDirectSpreads set1.selections,
    HasFragments s (conflictKey context node) key2 exclusive

theorem FragmentCompared.mono {exclusive : Bool} {set fragmentSet : SelectionSetNode}
    (h : FragmentCompared own s exclusive set fragmentSet) (hextends : Extends s s') :
    FragmentCompared own s' exclusive set fragmentSet :=
  h.imp_right fun h =>
    ⟨h.1.mono hextends, fun node hnode => hextends.fragment _ _ _ (h.2 node hnode)⟩

theorem FragmentCompared.weaken {set fragmentSet : SelectionSetNode}
    (h : FragmentCompared own s false set fragmentSet) (exclusive : Bool) :
    FragmentCompared own s exclusive set fragmentSet :=
  h.imp_right fun h => ⟨h.1.weaken exclusive, fun node hnode => (h.2 node hnode).weaken exclusive⟩

theorem FragmentsCompared.mono {exclusive : Bool} {key1 key2 : Text}
    {set1 set2 : SelectionSetNode} (h : FragmentsCompared own s exclusive key1 set1 key2 set2)
    (hextends : Extends s s') : FragmentsCompared own s' exclusive key1 set1 key2 set2 where
  fields := h.fields.imp (fun h => h.mono hextends) (fun h => h.mono hextends)
  spreads2 node hnode := hextends.fragments _ _ _ (h.spreads2 node hnode)
  spreads1 node hnode := hextends.fragments _ _ _ (h.spreads1 node hnode)

theorem FragmentsCompared.weaken {key1 key2 : Text} {set1 set2 : SelectionSetNode}
    (h : FragmentsCompared own s false key1 set1 key2 set2) (exclusive : Bool) :
    FragmentsCompared own s exclusive key1 set1 key2 set2 where
  fields := h.fields.imp (fun h => h.weaken exclusive) (fun h => h.weaken exclusive)
  spreads2 node hnode := (h.spreads2 node hnode).weaken exclusive
  spreads1 node hnode := (h.spreads1 node hnode).weaken exclusive

theorem FragmentsCompared.symm {exclusive : Bool} {key1 key2 : Text}
    {set1 set2 : SelectionSetNode} (h : FragmentsCompared own s exclusive key1 set1 key2 set2) :
    FragmentsCompared own s exclusive key2 set2 key1 set1 where
  fields := h.fields.symm
  spreads2 node hnode := (h.spreads1 node hnode).symm
  spreads1 node hnode := (h.spreads2 node hnode).symm

/-- The node is a spread of the document with the conflict key and the fragment. -/
structure Spreads (context : ValidationContext) (key : Text) (fragmentSet : SelectionSetNode)
    (node : FragmentSpreadNode) : Prop where
  mem : ∃ set ∈ documentSets context.document, node ∈ allDirectSpreads set.selections
  key_eq : conflictKey context node = key
  fragment : ∃ fragment, context.getFragment node.name.value = some fragment ∧
    fragment.selectionSet = fragmentSet

/-- Everything that has to be compared for the pairs that are new has been compared. -/
structure Settled (own : OwnCheck types V) (s s' : MergeState) : Prop where
  grows : Extends s s'
  fragment : ∀ set key exclusive, HasFragment s' set key exclusive →
    HasFragment s set key exclusive ∨ ∀ fragmentSet node, Spreads context key fragmentSet node →
      FragmentCompared own s' exclusive set fragmentSet
  fragments : ∀ key1 key2 exclusive, HasFragments s' key1 key2 exclusive →
    HasFragments s key1 key2 exclusive ∨ ∀ set1 node1 set2 node2,
      Spreads context key1 set1 node1 → Spreads context key2 set2 node2 →
      FragmentsCompared own s' exclusive key1 set1 key2 set2

theorem Settled.refl (own : OwnCheck types V) (s : MergeState) : Settled own s s :=
  ⟨.refl s, fun _ _ _ h => .inl h, fun _ _ _ h => .inl h⟩

theorem Settled.trans {s'' : MergeState} (h : Settled own s s') (h' : Settled own s' s'') :
    Settled own s s'' where
  grows := h.grows.trans h'.grows
  fragment set key exclusive hhas := by
    rcases h'.fragment set key exclusive hhas with hmid | hdone
    · refine (h.fragment set key exclusive hmid).imp_right fun hdone fragmentSet node hnode => ?_
      exact (hdone fragmentSet node hnode).mono h'.grows
    · exact .inr hdone
  fragments key1 key2 exclusive hhas := by
    rcases h'.fragments key1 key2 exclusive hhas with hmid | hdone
    · refine (h.fragments key1 key2 exclusive hmid).imp_right
        fun hdone set1 node1 set2 node2 h1 h2 => ?_
      exact (hdone set1 node1 set2 node2 h1 h2).mono h'.grows
    · exact .inr hdone

theorem settled_of_samePairs (own : OwnCheck types V) (h : ParentTypes.SamePairs s s') :
    Settled own s s' where
  grows := SamePairs.extends h
  fragment set key exclusive hhas := by
    rw [HasFragment, h.fieldsAndFragments] at hhas
    exact .inl hhas
  fragments key1 key2 exclusive hhas := by
    rw [HasFragments, h.fragments] at hhas
    exact .inl hhas

end Compared

end GraphqlCore.Validation
