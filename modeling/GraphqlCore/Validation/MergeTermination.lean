import GraphqlCore.Data.Flags
import GraphqlCore.Validation.OverlappingFieldsCanBeMerged

/-!
# The comparison of overlapping fields terminates

The functions that compare selection sets and fragments descend from the selection sets
of two fields to smaller ones, and to the fragments that these spread, which may be
larger.  A pair with a fragment is recorded before, with a flag that may be changed
once, and all selection sets and conflict keys are those of the document.  So the calls
are nested at most as deep as there are pairs to record, times the size of the largest
selection set.
-/

namespace GraphqlCore.Validation

open Language Attempt

/-! ## The selection sets and conflict keys of a document -/

mutual

/-- The fields among the selections and those of inline fragments. -/
def directFields : SelectionNode → List FieldNode
  | .field node => [node]
  | .fragmentSpread _ => []
  | .inlineFragment ⟨_, _, ⟨selections, _⟩, _⟩ => allDirectFields selections

def allDirectFields : List SelectionNode → List FieldNode
  | [] => []
  | selection :: rest => directFields selection ++ allDirectFields rest

end

mutual

/-- The spreads among the selections and those of inline fragments. -/
def directSpreads : SelectionNode → List FragmentSpreadNode
  | .field _ => []
  | .fragmentSpread node => [node]
  | .inlineFragment ⟨_, _, ⟨selections, _⟩, _⟩ => allDirectSpreads selections

def allDirectSpreads : List SelectionNode → List FragmentSpreadNode
  | [] => []
  | selection :: rest => directSpreads selection ++ allDirectSpreads rest

end

/-- The conflict key of a spread does not depend on the variables around it. -/
def conflictKey (context : ValidationContext) (node : FragmentSpreadNode) : Text :=
  (getFragmentSpread context node none).key

/-- Selection sets and conflict keys that are closed under what is compared. -/
structure Universe (context : ValidationContext) where
  sets : List SelectionSetNode
  keys : List Text
  bound : ℕ
  sizeOf_le : ∀ set ∈ sets, sizeOf set ≤ bound
  fields_mem : ∀ set ∈ sets, ∀ node ∈ allDirectFields set.selections,
    ∀ subset, node.selectionSet = some subset → subset ∈ sets
  spreads_mem : ∀ set ∈ sets, ∀ node ∈ allDirectSpreads set.selections,
    conflictKey context node ∈ keys
  fragments_mem : ∀ name fragment, context.getFragment name = some fragment →
    fragment.selectionSet ∈ sets

theorem bindVariable_key {varMap varMap' : VarMap} {argMap : Dict Text ValueNode}
    {bound bound' : Text × Dict Text ValueNode} (h : bound.1 = bound'.1)
    (definition : Text × VariableDefinitionNode) :
    (bindVariable varMap argMap bound definition).1 =
      (bindVariable varMap' argMap bound' definition).1 := by
  unfold bindVariable
  cases argMap.get definition.1 with
  | some value => exact congrArg (· ++ definition.1 ++ str ": " ++ stringifyValue value) h
  | none =>
      cases definition.2.defaultValue with
      | some defaultValue => exact h
      | none => exact h

theorem foldl_bindVariable_key {varMap varMap' : VarMap} {argMap : Dict Text ValueNode} :
    ∀ (definitions : List (Text × VariableDefinitionNode))
      (bound bound' : Text × Dict Text ValueNode), bound.1 = bound'.1 →
      (definitions.foldl (bindVariable varMap argMap) bound).1 =
        (definitions.foldl (bindVariable varMap' argMap) bound').1
  | [], _, _, h => h
  | definition :: rest, _, _, h =>
      foldl_bindVariable_key rest _ _ (bindVariable_key h definition)

theorem getFragmentSpread_key (context : ValidationContext) (node : FragmentSpreadNode)
    (varMap : VarMap) :
    (getFragmentSpread context node varMap).key = conflictKey context node := by
  unfold conflictKey getFragmentSpread
  cases context.getFragmentSignature node.name.value with
  | none => rfl
  | some fragmentSignature =>
      exact congrArg (· ++ str ")") (foldl_bindVariable_key _ _ _ rfl)

/-! ## What is found in a selection set -/

/-- What is found are the fields and spreads of the lists. -/
structure FoundIn (context : ValidationContext) (nodes : List FieldNode)
    (spreads : List FragmentSpreadNode) (found : FieldsAndSpreads) : Prop where
  fields : ∀ name fields, found.fields.get name = some fields →
    ∀ field ∈ fields, field.node ∈ nodes
  spreads : ∀ key spread, found.fragmentSpreads.get key = some spread →
    ∃ node ∈ spreads, spread.key = conflictKey context node

section Found

variable {context : ValidationContext} {nodes nodes' : List FieldNode}
  {spreads spreads' : List FragmentSpreadNode} {found : FieldsAndSpreads}

theorem FoundIn.addField (h : FoundIn context nodes spreads found) (name : Text)
    (field : NodeAndDef) :
    FoundIn context (nodes ++ [field.node]) spreads (found.addField name field) where
  fields name' fields hget field' hfield := by
    rw [FieldsAndSpreads.addField, Dict.get_set] at hget
    split at hget
    · obtain rfl := Option.some.inj hget
      rcases List.mem_append.mp hfield with hfield | hfield
      · cases hname : found.fields.get name with
        | none => simp [hname] at hfield
        | some fields' =>
            rw [hname] at hfield
            exact List.mem_append_left _ (h.fields name fields' hname field' hfield)
      · obtain rfl := List.mem_singleton.mp hfield
        exact List.mem_append_right _ (List.mem_singleton_self _)
    · exact List.mem_append_left _ (h.fields name' fields hget field' hfield)
  spreads := h.spreads

theorem FoundIn.addSpread (h : FoundIn context nodes spreads found)
    (node : FragmentSpreadNode) (varMap : VarMap) :
    FoundIn context nodes (spreads ++ [node])
      (found.addSpread (getFragmentSpread context node varMap)) where
  fields := h.fields
  spreads key spread hget := by
    rw [FieldsAndSpreads.addSpread, Dict.get_set] at hget
    split at hget
    · obtain rfl := Option.some.inj hget
      exact ⟨node, List.mem_append_right _ (List.mem_singleton_self _),
        getFragmentSpread_key context node varMap⟩
    · obtain ⟨node', hnode, hkey⟩ := h.spreads key spread hget
      exact ⟨node', List.mem_append_left _ hnode, hkey⟩

mutual

theorem collectFieldsAndFragmentSpread_foundIn (varMap : VarMap) :
    ∀ (selection : SelectionNode) (parentType : Option Text) {nodes spreads found},
      FoundIn context nodes spreads found →
      FoundIn context (nodes ++ directFields selection)
        (spreads ++ directSpreads selection)
        (collectFieldsAndFragmentSpread context parentType varMap selection found)
  | .field node, parentType, nodes, spreads, found, h => by
      rw [collectFieldsAndFragmentSpread, directSpreads, List.append_nil]
      exact h.addField _ (nodeAndDef context parentType node)
  | .fragmentSpread node, parentType, nodes, spreads, found, h => by
      rw [collectFieldsAndFragmentSpread, directFields, List.append_nil]
      exact h.addSpread node varMap
  | .inlineFragment ⟨typeCondition, _, ⟨selections, _⟩, _⟩, parentType, nodes, spreads,
      found, h => by
      rw [collectFieldsAndFragmentSpread, directFields, directSpreads]
      exact collectFieldsAndFragmentSpreads_foundIn varMap selections _ h

theorem collectFieldsAndFragmentSpreads_foundIn (varMap : VarMap) :
    ∀ (selections : List SelectionNode) (parentType : Option Text) {nodes spreads found},
      FoundIn context nodes spreads found →
      FoundIn context (nodes ++ allDirectFields selections)
        (spreads ++ allDirectSpreads selections)
        (collectFieldsAndFragmentSpreads context parentType varMap selections found)
  | [], parentType, nodes, spreads, found, h => by
      rw [collectFieldsAndFragmentSpreads, allDirectFields, allDirectSpreads,
        List.append_nil, List.append_nil]
      exact h
  | selection :: rest, parentType, nodes, spreads, found, h => by
      rw [collectFieldsAndFragmentSpreads, allDirectFields, allDirectSpreads,
        ← List.append_assoc, ← List.append_assoc]
      exact collectFieldsAndFragmentSpreads_foundIn varMap rest parentType
        (collectFieldsAndFragmentSpread_foundIn varMap selection parentType h)

end

end Found

/-! ## The size of nested selection sets -/

mutual

theorem sizeOf_directFields : ∀ (selection : SelectionNode),
    ∀ node ∈ directFields selection, ∀ subset, node.selectionSet = some subset →
      sizeOf subset < sizeOf selection
  | .field ⟨fieldAlias, name, arguments, directives, selectionSet, loc⟩, node, hnode,
      subset, hsubset => by
      rw [directFields, List.mem_singleton] at hnode
      subst hnode
      subst hsubset
      simp
      omega
  | .fragmentSpread _, node, hnode, _, _ => by
      simp [directFields] at hnode
  | .inlineFragment ⟨_, _, ⟨selections, _⟩, _⟩, node, hnode, subset, hsubset => by
      rw [directFields] at hnode
      have hlt := sizeOf_allDirectFields selections node hnode subset hsubset
      simp
      omega

theorem sizeOf_allDirectFields : ∀ (selections : List SelectionNode),
    ∀ node ∈ allDirectFields selections, ∀ subset, node.selectionSet = some subset →
      sizeOf subset < sizeOf selections
  | [], node, hnode, _, _ => by simp [allDirectFields] at hnode
  | selection :: rest, node, hnode, subset, hsubset => by
      rw [allDirectFields] at hnode
      simp only [List.cons.sizeOf_spec]
      rcases List.mem_append.mp hnode with hnode | hnode
      · have hlt := sizeOf_directFields selection node hnode subset hsubset
        omega
      · have hlt := sizeOf_allDirectFields rest node hnode subset hsubset
        omega

end

theorem sizeOf_subset {set : SelectionSetNode} {node : FieldNode}
    {subset : SelectionSetNode} (hnode : node ∈ allDirectFields set.selections)
    (hsubset : node.selectionSet = some subset) : sizeOf subset < sizeOf set := by
  obtain ⟨selections, loc⟩ := set
  have hlt := sizeOf_allDirectFields selections node hnode subset hsubset
  simp only [SelectionSetNode.mk.sizeOf_spec]
  omega

/-! ## The state while selection sets are compared -/

variable {context : ValidationContext}

namespace Universe

variable (U : Universe context)

/-- The fields are nested in a selection set of the document. -/
structure HasFieldMap (fieldMap : FieldMap) : Prop where
  origin_mem : fieldMap.origin ∈ U.sets
  fields_mem : ∀ name fields, fieldMap.fields.get name = some fields →
    ∀ field ∈ fields, field.node ∈ allDirectFields fieldMap.origin.selections

def HasSpread (spread : FragmentSpread) : Prop := spread.key ∈ U.keys

/-- How many pairs can still be recorded. -/
def remaining (s : MergeState) : ℕ :=
  s.comparedFieldsAndFragmentPairs.remaining (U.sets.product U.keys) +
    s.comparedFragmentPairs.remaining (U.keys.product U.keys)

/-- What is cached belongs to the document, and the number of pairs is bounded. -/
structure Keeps (left : ℕ) (s : MergeState) : Prop where
  cached : ∀ set fieldMap spreads,
    s.cachedFieldsAndFragmentSpreads.get set = some (fieldMap, spreads) →
    fieldMap.origin = set ∧ U.HasFieldMap fieldMap ∧ ∀ spread ∈ spreads, U.HasSpread spread
  remaining_le : U.remaining s ≤ left

variable {U} {left : ℕ} {s : MergeState}

theorem Keeps.succ (h : U.Keeps left s) : U.Keeps (left + 1) s :=
  ⟨h.cached, Nat.le_succ_of_le h.remaining_le⟩

/-- No calls are nested too deep. -/
abbrev Returns {α : Type} (x : Run α) (s : MergeState) (Q : α → MergeState → Prop) :
    Prop :=
  Ends x s Q fun _ _ => False

theorem getFieldsAndFragmentSpreads_returns (hkeeps : U.Keeps left s)
    (parentType : Option Text) {set : SelectionSetNode} (hset : set ∈ U.sets)
    (varMap : VarMap) :
    Returns (getFieldsAndFragmentSpreads context parentType set varMap) s
      fun cached s' => U.Keeps left s' ∧ cached.1.origin = set ∧
        U.HasFieldMap cached.1 ∧ ∀ spread ∈ cached.2, U.HasSpread spread := by
  rw [getFieldsAndFragmentSpreads, Returns, ends_state]
  cases hcached : s.cachedFieldsAndFragmentSpreads.get set with
  | some cached => exact ⟨hkeeps, hkeeps.cached set cached.1 cached.2 hcached⟩
  | none =>
      have hempty : FoundIn context [] [] {} :=
        ⟨fun _ _ hget => (nomatch hget), fun _ _ hget => (nomatch hget)⟩
      have hfound := collectFieldsAndFragmentSpreads_foundIn varMap set.selections
        parentType hempty
      have hnew : U.HasFieldMap ⟨set, (collectFieldsAndFragmentSpreads context parentType
          varMap set.selections {}).fields⟩ := ⟨hset, hfound.fields⟩
      have hspreads : ∀ spread ∈ (collectFieldsAndFragmentSpreads context parentType
          varMap set.selections {}).fragmentSpreads.values, U.HasSpread spread := by
        intro spread hspread
        obtain ⟨⟨key, _⟩, hmem, rfl⟩ := List.mem_map.mp hspread
        obtain ⟨node, hnode, hkey⟩ := hfound.spreads key _ (Dict.mem_items_iff.mp hmem)
        rw [HasSpread, hkey]
        exact U.spreads_mem set hset node hnode
      refine ⟨⟨?_, hkeeps.remaining_le⟩, rfl, hnew, hspreads⟩
      intro set' fieldMap spreads hget
      dsimp only at hget
      rw [Dict.get_set] at hget
      split at hget
      · next heq =>
        cases hget
        exact ⟨heq.symm, hnew, hspreads⟩
      · exact hkeeps.cached set' fieldMap spreads hget

/-- A pair that was not there is recorded, and fewer pairs are left. -/
theorem remaining_add_lt {α : Type} [DecidableEq α] {pairs : OrderedPairSet α}
    {keys : List (α × Text)} {a : α} {b : Text} {flag : Bool} (hmem : (a, b) ∈ keys)
    (hhas : pairs.has a b flag = false) :
    (pairs.add a b flag).remaining keys < pairs.remaining keys := by
  apply Dict.remaining_set_lt hmem
  unfold OrderedPairSet.has at hhas
  cases hget : pairs.get (a, b) with
  | none => cases flag <;> decide
  | some result =>
      rw [hget] at hhas
      cases flag <;> cases result <;> first | decide | cases hhas

theorem memoizeFieldsAndFragment_returns (hkeeps : U.Keeps left s)
    {fieldMap : FieldMap} (hfieldMap : U.HasFieldMap fieldMap) {key : Text}
    (hkey : key ∈ U.keys) (flag : Bool) :
    Returns (memoizeFieldsAndFragment fieldMap key flag) s fun before s' =>
      U.Keeps left s' ∧ (before = false → ∃ less, left = less + 1 ∧ U.Keeps less s') := by
  rw [memoizeFieldsAndFragment, Returns, ends_state]
  split
  · exact ⟨hkeeps, nofun⟩
  · next hhas =>
    have hmem := List.pair_mem_product.mpr ⟨hfieldMap.origin_mem, hkey⟩
    have hnew := Bool.eq_false_iff.mpr hhas
    have hlt := remaining_add_lt hmem hnew
    have hle := hkeeps.remaining_le
    unfold remaining at hle
    obtain ⟨less, rfl⟩ : ∃ less, left = less + 1 := ⟨left - 1, by omega⟩
    refine ⟨⟨hkeeps.cached, ?_⟩, fun _ => ⟨less, rfl, hkeeps.cached, ?_⟩⟩ <;>
    · unfold remaining
      dsimp only
      omega

theorem memoizeFragments_returns (hkeeps : U.Keeps left s) {key1 key2 : Text}
    (hkey1 : key1 ∈ U.keys) (hkey2 : key2 ∈ U.keys) (flag : Bool) :
    Returns (memoizeFragments key1 key2 flag) s fun before s' =>
      U.Keeps left s' ∧ (before = false → ∃ less, left = less + 1 ∧ U.Keeps less s') := by
  rw [memoizeFragments, Returns, ends_state]
  split
  · exact ⟨hkeeps, nofun⟩
  · next hhas =>
    have hmem : ((PairSet.sorted key1 key2).1, (PairSet.sorted key1 key2).2) ∈
        U.keys.product U.keys := by
      rw [PairSet.sorted]
      split <;> exact List.pair_mem_product.mpr ⟨by assumption, by assumption⟩
    have hnew := Bool.eq_false_iff.mpr hhas
    have hlt := remaining_add_lt hmem hnew
    have hle := hkeeps.remaining_le
    unfold remaining at hle
    obtain ⟨less, rfl⟩ : ∃ less, left = less + 1 := ⟨left - 1, by omega⟩
    refine ⟨⟨hkeeps.cached, ?_⟩, fun _ => ⟨less, rfl, hkeeps.cached, ?_⟩⟩ <;>
    · unfold remaining PairSet.add
      dsimp only
      omega

/-! ## The calls -/

/-- The functions return where the number of pairs is bounded, and the size of the
first selection set is. -/
structure Suffices (U : Universe context) (compare : Comparers) (left size : ℕ) :
    Prop where
  fieldsAndFragment : ∀ exclusive fieldMap spread s, U.HasFieldMap fieldMap →
    U.HasSpread spread → U.Keeps left s →
    Returns (compare.betweenFieldsAndFragment exclusive fieldMap spread) s
      fun _ s' => U.Keeps left s'
  fragments : ∀ exclusive spread1 spread2 s, U.HasSpread spread1 →
    U.HasSpread spread2 → U.Keeps left s →
    Returns (compare.betweenFragments exclusive spread1 spread2) s
      fun _ s' => U.Keeps left s'
  subSelectionSets : ∀ exclusive parentType1 set1 varMap1 parentType2 set2 varMap2 s,
    set1 ∈ U.sets → set2 ∈ U.sets → sizeOf set1 ≤ size → U.Keeps left s →
    Returns (compare.betweenSubSelectionSets exclusive parentType1 set1 varMap1
      parentType2 set2 varMap2) s fun _ s' => U.Keeps left s'

variable {compare : Comparers} {size : ℕ}

theorem findConflict_returns (hcompare : U.Suffices compare left size)
    (exclusive : Bool) (responseName : Text) {field1 field2 : NodeAndDef}
    (varMap1 varMap2 : VarMap)
    (hfield1 : ∀ set, field1.node.selectionSet = some set →
      set ∈ U.sets ∧ sizeOf set ≤ size)
    (hfield2 : ∀ set, field2.node.selectionSet = some set → set ∈ U.sets)
    (hkeeps : U.Keeps left s) :
    Returns (findConflict context compare exclusive responseName field1 varMap1 field2
      varMap2) s fun _ s' => U.Keeps left s' := by
  rw [findConflict]
  split
  · exact hkeeps
  · split
    · next set1 set2 hset1 hset2 =>
      rw [Returns, ends_bind]
      obtain ⟨hmem1, hsize⟩ := hfield1 set1 hset1
      exact hcompare.subSelectionSets _ _ set1 _ _ set2 _ s hmem1 (hfield2 set2 hset2)
        hsize hkeeps
    · exact hkeeps

/-- The selection sets of the fields belong to the document. -/
theorem HasFieldMap.subset {fieldMap : FieldMap} (h : U.HasFieldMap fieldMap)
    {name : Text} {fields : List NodeAndDef}
    (hget : fieldMap.fields.get name = some fields) {field : NodeAndDef}
    (hfield : field ∈ fields) {set : SelectionSetNode}
    (hset : field.node.selectionSet = some set) :
    set ∈ U.sets ∧ sizeOf set < sizeOf fieldMap.origin := by
  have hnode := h.fields_mem name fields hget field hfield
  exact ⟨U.fields_mem _ h.origin_mem _ hnode set hset, sizeOf_subset hnode hset⟩

theorem collectConflictsBetween_returns (hcompare : U.Suffices compare left size)
    (exclusive : Bool) {fieldMap1 fieldMap2 : FieldMap} (varMap1 varMap2 : VarMap)
    (h1 : U.HasFieldMap fieldMap1) (h2 : U.HasFieldMap fieldMap2)
    (hsize : sizeOf fieldMap1.origin ≤ size + 1) (hkeeps : U.Keeps left s) :
    Returns (collectConflictsBetween context compare exclusive fieldMap1 varMap1 fieldMap2
      varMap2) s fun _ s' => U.Keeps left s' := by
  rw [collectConflictsBetween, Returns]
  refine ends_flatMap (fun entry hentry s hkeeps => ?_) s hkeeps
  refine ends_flatMap (fun field1 hfield1 s hkeeps => ?_) s hkeeps
  refine ends_flatMap (fun field2 hfield2 s hkeeps => ?_) s hkeeps
  rw [ends_map]
  refine findConflict_returns hcompare exclusive _ varMap1 varMap2 ?_ ?_ hkeeps
  · intro set hset
    obtain ⟨hmem, hlt⟩ := h1.subset (Dict.mem_items_iff.mp hentry) hfield1 hset
    exact ⟨hmem, by omega⟩
  · intro set hset
    cases hget : fieldMap2.fields.get entry.1 with
    | none => simp [hget] at hfield2
    | some fields2 =>
        rw [hget] at hfield2
        exact (h2.subset hget hfield2 hset).1

/-- A loop over spreads of the document. -/
theorem flatMap_spreads_returns {f : FragmentSpread → Run (List Conflict)}
    {spreads : List FragmentSpread} (hspreads : ∀ spread ∈ spreads, U.HasSpread spread)
    (h : ∀ spread s, U.HasSpread spread → U.Keeps left s →
      Returns (f spread) s fun _ s' => U.Keeps left s') (hkeeps : U.Keeps left s) :
    Returns (Attempt.flatMap f spreads) s fun _ s' => U.Keeps left s' :=
  ends_flatMap (fun spread hspread s => h spread s (hspreads spread hspread)) s hkeeps

theorem getReferencedFieldsAndFragmentSpreads_returns {name : Text}
    {fragment : FragmentDefinitionNode} (hfragment : context.getFragment name = some fragment)
    (varMap : VarMap) (hkeeps : U.Keeps left s) :
    Returns (getReferencedFieldsAndFragmentSpreads context fragment varMap) s
      fun cached s' => U.Keeps left s' ∧ U.HasFieldMap cached.1 ∧
        ∀ spread ∈ cached.2, U.HasSpread spread := by
  refine (getFieldsAndFragmentSpreads_returns hkeeps _
    (U.fragments_mem name fragment hfragment) varMap).mono ?_
  rintro cached s' ⟨hkeeps', -, hcached⟩
  exact ⟨hkeeps', hcached⟩

theorem HasFieldMap.sizeOf_le {fieldMap : FieldMap} (h : U.HasFieldMap fieldMap) :
    sizeOf fieldMap.origin ≤ U.bound + 1 :=
  Nat.le_succ_of_le (U.sizeOf_le _ h.origin_mem)

/-- Where a pair with a fragment is recorded first, fewer pairs suffice for the calls. -/
theorem collectConflictsBetweenFieldsAndFragment_returns
    (hcompare : ∀ less, left = less + 1 → U.Suffices compare less U.bound)
    (exclusive : Bool) {fieldMap : FieldMap} {spread : FragmentSpread}
    (hfieldMap : U.HasFieldMap fieldMap) (hspread : U.HasSpread spread)
    (hkeeps : U.Keeps left s) :
    Returns (collectConflictsBetweenFieldsAndFragment context compare exclusive fieldMap
      spread) s fun _ s' => U.Keeps left s' := by
  rw [collectConflictsBetweenFieldsAndFragment, Returns, ends_bind]
  refine (memoizeFieldsAndFragment_returns hkeeps hfieldMap hspread exclusive).mono ?_
  rintro before s' ⟨hkeeps', hless⟩
  cases before with
  | true => exact hkeeps'
  | false =>
      obtain ⟨less, rfl, hfewer⟩ := hless rfl
      have hcompare := hcompare less rfl
      cases hfragment : context.getFragment spread.node.name.value with
      | none => exact hfewer.succ
      | some fragment =>
          simp only [Bool.false_eq_true, if_false, ends_bind]
          refine (getReferencedFieldsAndFragmentSpreads_returns hfragment spread.varMap
            hfewer).mono ?_
          rintro ⟨fieldMap2, spreads2⟩ s' ⟨hfewer, hfieldMap2, hspreads2⟩
          dsimp only
          split
          · exact hfewer.succ
          · simp only [ends_bind, ends_pure]
            refine (collectConflictsBetween_returns hcompare exclusive none spread.varMap
              hfieldMap hfieldMap2 hfieldMap.sizeOf_le hfewer).mono ?_
            intro conflicts s' hfewer
            refine (flatMap_spreads_returns hspreads2 (fun spread' s hspread' =>
              hcompare.fieldsAndFragment exclusive fieldMap spread' s hfieldMap hspread')
              hfewer).mono ?_
            intro nested s' hfewer
            exact hfewer.succ

theorem collectConflictsBetweenFragments_returns
    (hcompare : ∀ less, left = less + 1 → U.Suffices compare less U.bound)
    (exclusive : Bool) {spread1 spread2 : FragmentSpread}
    (hspread1 : U.HasSpread spread1) (hspread2 : U.HasSpread spread2)
    (hkeeps : U.Keeps left s) :
    Returns (collectConflictsBetweenFragments context compare exclusive spread1 spread2) s
      fun _ s' => U.Keeps left s' := by
  rw [collectConflictsBetweenFragments]
  split
  · exact hkeeps
  · split
    · exact ⟨hkeeps.cached, hkeeps.remaining_le⟩
    · rw [Returns, ends_bind]
      refine (memoizeFragments_returns hkeeps hspread1 hspread2 exclusive).mono ?_
      rintro before s' ⟨hkeeps', hless⟩
      cases before with
      | true => exact hkeeps'
      | false =>
          obtain ⟨less, rfl, hfewer⟩ := hless rfl
          have hcompare := hcompare less rfl
          simp only [Bool.false_eq_true, if_false]
          split
          · next fragment1 fragment2 hfragment1 hfragment2 =>
            simp only [ends_bind, ends_pure]
            refine (getReferencedFieldsAndFragmentSpreads_returns hfragment1
              spread1.varMap hfewer).mono ?_
            rintro ⟨fieldMap1, spreads1⟩ s' ⟨hfewer, hfieldMap1, hspreads1⟩
            refine (getReferencedFieldsAndFragmentSpreads_returns hfragment2
              spread2.varMap hfewer).mono ?_
            rintro ⟨fieldMap2, spreads2⟩ s' ⟨hfewer, hfieldMap2, hspreads2⟩
            refine (collectConflictsBetween_returns hcompare exclusive spread1.varMap
              spread2.varMap hfieldMap1 hfieldMap2 hfieldMap1.sizeOf_le hfewer).mono ?_
            intro conflicts s' hfewer
            refine (flatMap_spreads_returns hspreads2 (fun spread s hspread =>
              hcompare.fragments exclusive spread1 spread s hspread1 hspread)
              hfewer).mono ?_
            intro nested2 s' hfewer
            refine (flatMap_spreads_returns hspreads1 (fun spread s hspread =>
              hcompare.fragments exclusive spread spread2 s hspread hspread2)
              hfewer).mono ?_
            intro nested1 s' hfewer
            exact hfewer.succ
          · exact hfewer.succ

theorem findConflictsBetweenSubSelectionSets_returns
    (hcompare : U.Suffices compare left size) (exclusive : Bool)
    (parentType1 : Option Text) {set1 : SelectionSetNode} (varMap1 : VarMap)
    (parentType2 : Option Text) {set2 : SelectionSetNode} (varMap2 : VarMap)
    (hset1 : set1 ∈ U.sets) (hset2 : set2 ∈ U.sets) (hsize : sizeOf set1 ≤ size + 1)
    (hkeeps : U.Keeps left s) :
    Returns (findConflictsBetweenSubSelectionSets context compare exclusive parentType1
      set1 varMap1 parentType2 set2 varMap2) s fun _ s' => U.Keeps left s' := by
  rw [findConflictsBetweenSubSelectionSets, Returns]
  simp only [ends_bind, ends_pure]
  refine (getFieldsAndFragmentSpreads_returns hkeeps parentType1 hset1 varMap1).mono ?_
  rintro ⟨fieldMap1, spreads1⟩ s ⟨hkeeps, horigin, hfieldMap1, hspreads1⟩
  refine (getFieldsAndFragmentSpreads_returns hkeeps parentType2 hset2 varMap2).mono ?_
  rintro ⟨fieldMap2, spreads2⟩ s ⟨hkeeps, -, hfieldMap2, hspreads2⟩
  refine (collectConflictsBetween_returns hcompare exclusive varMap1 varMap2 hfieldMap1
    hfieldMap2 (by rw [horigin]; exact hsize) hkeeps).mono ?_
  intro conflicts s hkeeps
  refine (flatMap_spreads_returns hspreads2 (fun spread s hspread =>
    hcompare.fieldsAndFragment exclusive fieldMap1 spread s hfieldMap1 hspread)
    hkeeps).mono ?_
  intro conflicts1 s hkeeps
  refine (flatMap_spreads_returns hspreads1 (fun spread s hspread =>
    hcompare.fieldsAndFragment exclusive fieldMap2 spread s hfieldMap2 hspread)
    hkeeps).mono ?_
  intro conflicts2 s hkeeps
  refine (flatMap_spreads_returns hspreads1 (fun spread1 s hspread1 hkeeps =>
    flatMap_spreads_returns hspreads2 (fun spread2 s hspread2 =>
      hcompare.fragments exclusive spread1 spread2 s hspread1 hspread2) hkeeps)
    hkeeps).mono ?_
  intro conflicts12 s hkeeps
  exact hkeeps

/-- The depth of calls that suffices, by induction on the depth. -/
theorem comparers_suffices : ∀ depth left size,
    left * (U.bound + 2) + 1 + size ≤ depth →
    U.Suffices (comparers context depth) left size := by
  intro depth
  induction depth with
  | zero =>
      intro left size hle
      omega
  | succ depth ih =>
      intro left size hle
      have hless : ∀ less, left = less + 1 →
          U.Suffices (comparers context depth) less U.bound := by
        rintro less rfl
        rw [Nat.succ_mul] at hle
        exact ih less U.bound (by omega)
      constructor
      · intro exclusive fieldMap spread s hfieldMap hspread hkeeps
        exact collectConflictsBetweenFieldsAndFragment_returns hless exclusive hfieldMap
          hspread hkeeps
      · intro exclusive spread1 spread2 s hspread1 hspread2 hkeeps
        exact collectConflictsBetweenFragments_returns hless exclusive hspread1 hspread2
          hkeeps
      · intro exclusive parentType1 set1 varMap1 parentType2 set2 varMap2 s hset1 hset2
          hsize hkeeps
        cases size with
        | zero =>
            obtain ⟨selections, loc⟩ := set1
            simp at hsize
        | succ size =>
            exact findConflictsBetweenSubSelectionSets_returns (ih left size (by omega))
              exclusive parentType1 varMap1 parentType2 varMap2 hset1 hset2 hsize hkeeps

theorem compareFragmentSpreads_returns (hcompare : U.Suffices compare left size)
    {fieldMap : FieldMap} (hfieldMap : U.HasFieldMap fieldMap) :
    ∀ {spreads : List FragmentSpread} {s : MergeState},
      (∀ spread ∈ spreads, U.HasSpread spread) → U.Keeps left s →
      Returns (compareFragmentSpreads compare fieldMap spreads) s
        fun _ s' => U.Keeps left s'
  | [], s, _, hkeeps => hkeeps
  | spread :: rest, s, hspreads, hkeeps => by
      have hspread := hspreads spread List.mem_cons_self
      have hrest : ∀ spread' ∈ rest, U.HasSpread spread' := fun spread' hspread' =>
        hspreads spread' (List.mem_cons_of_mem _ hspread')
      rw [compareFragmentSpreads, Returns]
      simp only [ends_bind, ends_pure]
      refine (hcompare.fieldsAndFragment false fieldMap spread s hfieldMap hspread
        hkeeps).mono ?_
      intro conflicts s hkeeps
      refine (flatMap_spreads_returns hrest (fun spread' s hspread' =>
        hcompare.fragments false spread spread' s hspread hspread') hkeeps).mono ?_
      intro conflicts' s hkeeps
      exact compareFragmentSpreads_returns hcompare hfieldMap hrest hkeeps

theorem mem_of_mem_pairs {α : Type} {a b : α} : ∀ {l : List α},
    (a, b) ∈ pairs l → a ∈ l ∧ b ∈ l
  | [], h => by simp [pairs] at h
  | c :: rest, h => by
      rw [pairs] at h
      rcases List.mem_append.mp h with h | h
      · obtain ⟨b', hb', heq⟩ := List.mem_map.mp h
        obtain ⟨rfl, rfl⟩ := Prod.mk.inj heq
        exact ⟨List.mem_cons_self, List.mem_cons_of_mem _ hb'⟩
      · obtain ⟨ha, hb⟩ := mem_of_mem_pairs h
        exact ⟨List.mem_cons_of_mem _ ha, List.mem_cons_of_mem _ hb⟩

theorem collectConflictsWithin_returns (hcompare : U.Suffices compare left U.bound)
    {fieldMap : FieldMap} (hfieldMap : U.HasFieldMap fieldMap)
    (hkeeps : U.Keeps left s) :
    Returns (collectConflictsWithin context compare fieldMap) s
      fun _ s' => U.Keeps left s' := by
  rw [collectConflictsWithin, Returns]
  refine ends_flatMap (fun entry hentry s hkeeps => ?_) s hkeeps
  refine ends_flatMap (fun fields hfields s hkeeps => ?_) s hkeeps
  obtain ⟨hfield1, hfield2⟩ := mem_of_mem_pairs hfields
  have hget := Dict.mem_items_iff.mp hentry
  rw [ends_map]
  refine findConflict_returns hcompare false _ none none ?_ ?_ hkeeps
  · intro set hset
    obtain ⟨hmem, _⟩ := hfieldMap.subset hget hfield1 hset
    exact ⟨hmem, U.sizeOf_le set hmem⟩
  · intro set hset
    exact (hfieldMap.subset hget hfield2 hset).1

theorem findConflictsWithinSelectionSet_returns
    (hcompare : U.Suffices compare left U.bound) (parentType : Option Text)
    {set : SelectionSetNode} (hset : set ∈ U.sets) (hkeeps : U.Keeps left s) :
    Returns (findConflictsWithinSelectionSet context compare parentType set) s
      fun _ s' => U.Keeps left s' := by
  rw [findConflictsWithinSelectionSet, Returns]
  simp only [ends_bind, ends_pure]
  refine (getFieldsAndFragmentSpreads_returns hkeeps parentType hset none).mono ?_
  rintro ⟨fieldMap, spreads⟩ s ⟨hkeeps, -, hfieldMap, hspreads⟩
  refine (collectConflictsWithin_returns hcompare hfieldMap hkeeps).mono ?_
  intro conflicts s hkeeps
  exact compareFragmentSpreads_returns hcompare hfieldMap hspreads hkeeps

end Universe

/-! ## The selection sets of the document -/

mutual

/-- The selection set and all that are nested in it. -/
def nestedSets : SelectionSetNode → List SelectionSetNode
  | ⟨selections, loc⟩ => ⟨selections, loc⟩ :: setsInSelections selections

def setsInSelections : List SelectionNode → List SelectionSetNode
  | [] => []
  | selection :: rest => setsInSelection selection ++ setsInSelections rest

def setsInSelection : SelectionNode → List SelectionSetNode
  | .field ⟨_, _, _, _, selectionSet, _⟩ => setsInSubselections selectionSet
  | .fragmentSpread _ => []
  | .inlineFragment ⟨_, _, selectionSet, _⟩ => nestedSets selectionSet

def setsInSubselections : Option SelectionSetNode → List SelectionSetNode
  | none => []
  | some selectionSet => nestedSets selectionSet

end

theorem mem_nestedSets_self (set : SelectionSetNode) : set ∈ nestedSets set := by
  cases set
  exact List.mem_cons_self

mutual

theorem nestedSets_trans : ∀ (set : SelectionSetNode),
    ∀ nested ∈ nestedSets set, nestedSets nested ⊆ nestedSets set
  | ⟨selections, loc⟩, nested, hnested => by
      rw [nestedSets] at hnested ⊢
      rcases List.mem_cons.mp hnested with rfl | hnested
      · rw [nestedSets]
        exact List.Subset.refl _
      · exact fun _ hmem => List.mem_cons_of_mem _
          (setsInSelections_trans selections nested hnested hmem)

theorem setsInSelections_trans : ∀ (selections : List SelectionNode),
    ∀ nested ∈ setsInSelections selections,
      nestedSets nested ⊆ setsInSelections selections
  | [], nested, hnested => by simp [setsInSelections] at hnested
  | selection :: rest, nested, hnested => by
      rw [setsInSelections] at hnested ⊢
      rcases List.mem_append.mp hnested with hnested | hnested
      · exact List.subset_append_of_subset_left _
          (setsInSelection_trans selection nested hnested)
      · exact List.subset_append_of_subset_right _
          (setsInSelections_trans rest nested hnested)

theorem setsInSelection_trans : ∀ (selection : SelectionNode),
    ∀ nested ∈ setsInSelection selection, nestedSets nested ⊆ setsInSelection selection
  | .field ⟨_, _, _, _, selectionSet, _⟩, nested, hnested => by
      rw [setsInSelection] at hnested ⊢
      exact setsInSubselections_trans selectionSet nested hnested
  | .fragmentSpread _, nested, hnested => by simp [setsInSelection] at hnested
  | .inlineFragment ⟨_, _, selectionSet, _⟩, nested, hnested => by
      rw [setsInSelection] at hnested ⊢
      exact nestedSets_trans selectionSet nested hnested

theorem setsInSubselections_trans : ∀ (selectionSet : Option SelectionSetNode),
    ∀ nested ∈ setsInSubselections selectionSet,
      nestedSets nested ⊆ setsInSubselections selectionSet
  | none, nested, hnested => by simp [setsInSubselections] at hnested
  | some selectionSet, nested, hnested => by
      rw [setsInSubselections] at hnested ⊢
      exact nestedSets_trans selectionSet nested hnested

end

mutual

theorem subset_mem_setsInSelection : ∀ (selection : SelectionNode),
    ∀ node ∈ directFields selection, ∀ subset, node.selectionSet = some subset →
      subset ∈ setsInSelection selection
  | .field ⟨_, _, _, _, selectionSet, _⟩, node, hnode, subset, hsubset => by
      rw [directFields, List.mem_singleton] at hnode
      subst hnode
      subst hsubset
      rw [setsInSelection, setsInSubselections]
      exact mem_nestedSets_self subset
  | .fragmentSpread _, node, hnode, _, _ => by simp [directFields] at hnode
  | .inlineFragment ⟨_, _, ⟨selections, _⟩, _⟩, node, hnode, subset, hsubset => by
      rw [directFields] at hnode
      rw [setsInSelection, nestedSets]
      exact List.mem_cons_of_mem _
        (subset_mem_setsInSelections selections node hnode subset hsubset)

theorem subset_mem_setsInSelections : ∀ (selections : List SelectionNode),
    ∀ node ∈ allDirectFields selections, ∀ subset, node.selectionSet = some subset →
      subset ∈ setsInSelections selections
  | [], node, hnode, _, _ => by simp [allDirectFields] at hnode
  | selection :: rest, node, hnode, subset, hsubset => by
      rw [allDirectFields] at hnode
      rw [setsInSelections]
      rcases List.mem_append.mp hnode with hnode | hnode
      · exact List.mem_append_left _
          (subset_mem_setsInSelection selection node hnode subset hsubset)
      · exact List.mem_append_right _
          (subset_mem_setsInSelections rest node hnode subset hsubset)

end

mutual

theorem map_enterSelectionSet : ∀ (set : SelectionSetNode) (type : Option GraphQLType),
    (context.enterSelectionSet type set).map Prod.snd = nestedSets set
  | ⟨selections, loc⟩, type => by
      rw [ValidationContext.enterSelectionSet, nestedSets, List.map_cons,
        map_enterSelections selections type]

theorem map_enterSelections : ∀ (selections : List SelectionNode)
    (type : Option GraphQLType),
    (context.enterSelections type selections).map Prod.snd = setsInSelections selections
  | [], type => by rw [ValidationContext.enterSelections, setsInSelections, List.map_nil]
  | selection :: rest, type => by
      rw [ValidationContext.enterSelections, setsInSelections, List.map_append,
        map_enterSelection selection type, map_enterSelections rest type]

theorem map_enterSelection : ∀ (selection : SelectionNode) (type : Option GraphQLType),
    (context.enterSelection type selection).map Prod.snd = setsInSelection selection
  | .field ⟨_, _, _, _, selectionSet, _⟩, type => by
      rw [ValidationContext.enterSelection, setsInSelection,
        map_enterSubselections selectionSet]
  | .fragmentSpread _, type => by
      rw [ValidationContext.enterSelection, setsInSelection, List.map_nil]
  | .inlineFragment ⟨_, _, selectionSet, _⟩, type => by
      rw [ValidationContext.enterSelection, setsInSelection,
        map_enterSelectionSet selectionSet]

theorem map_enterSubselections : ∀ (selectionSet : Option SelectionSetNode)
    (type : Option GraphQLType),
    (context.enterSubselections type selectionSet).map Prod.snd =
      setsInSubselections selectionSet
  | none, type => by
      rw [ValidationContext.enterSubselections, setsInSubselections, List.map_nil]
  | some selectionSet, type => by
      rw [ValidationContext.enterSubselections, setsInSubselections,
        map_enterSelectionSet selectionSet]

end

/-- The selection set of a definition that has one. -/
def definitionSelectionSet : DefinitionNode → Option SelectionSetNode
  | .operation node => some node.selectionSet
  | .fragment node => some node.selectionSet
  | _ => none

def documentSets (document : DocumentNode) : List SelectionSetNode :=
  document.definitions.flatMap fun definition =>
    setsInSubselections (definitionSelectionSet definition)

theorem map_enterDocument :
    context.enterDocument.map Prod.snd = documentSets context.document := by
  rw [ValidationContext.enterDocument, documentSets, List.map_flatMap]
  congr 1
  funext definition
  cases definition <;> first
    | exact map_enterSelectionSet _ _
    | rfl

theorem mem_documentSets {document : DocumentNode} {set : SelectionSetNode} :
    set ∈ documentSets document ↔ ∃ definition ∈ document.definitions, ∃ root,
      definitionSelectionSet definition = some root ∧ set ∈ nestedSets root := by
  rw [documentSets, List.mem_flatMap]
  constructor
  · rintro ⟨definition, hdefinition, hset⟩
    cases hroot : definitionSelectionSet definition with
    | none =>
        rw [hroot, setsInSubselections] at hset
        cases hset
    | some root =>
        rw [hroot, setsInSubselections] at hset
        exact ⟨definition, hdefinition, root, hroot, hset⟩
  · rintro ⟨definition, hdefinition, root, hroot, hset⟩
    refine ⟨definition, hdefinition, ?_⟩
    rw [hroot, setsInSubselections]
    exact hset

theorem mem_of_getFragment {name : Text} {fragment : FragmentDefinitionNode}
    (h : context.getFragment name = some fragment) :
    .fragment fragment ∈ context.document.definitions := by
  have hfold : ∀ (definitions : List FragmentDefinitionNode)
      (fragments : Dict Text FragmentDefinitionNode),
      (definitions.foldl (fun fragments definition =>
        fragments.set definition.name.value definition) fragments).get name =
          some fragment →
      fragment ∈ definitions ∨ fragments.get name = some fragment := by
    intro definitions
    induction definitions with
    | nil => exact fun _ h => Or.inr h
    | cons definition rest ih =>
        intro fragments h
        rcases ih _ h with hmem | hget
        · exact Or.inl (List.mem_cons_of_mem _ hmem)
        · rw [Dict.get_set] at hget
          split at hget
          · exact Or.inl (Option.some.inj hget ▸ List.mem_cons_self)
          · exact Or.inr hget
  rcases hfold _ _ h with hmem | hget
  · obtain ⟨definition, hdefinition, hnode⟩ := List.mem_filterMap.mp hmem
    cases definition <;> cases hnode
    exact hdefinition
  · cases hget

/-- The selection sets of the document and the conflict keys of its spreads. -/
noncomputable def documentUniverse (context : ValidationContext) : Universe context where
  sets := documentSets context.document
  keys := (documentSets context.document).flatMap fun set =>
    (allDirectSpreads set.selections).map (conflictKey context)
  bound := ((documentSets context.document).map sizeOf).sum
  sizeOf_le set hset := List.le_sum_of_mem (List.mem_map_of_mem hset)
  fields_mem set hset node hnode subset hsubset := by
    obtain ⟨definition, hdefinition, root, hroot, hset⟩ := mem_documentSets.mp hset
    refine mem_documentSets.mpr ⟨definition, hdefinition, root, hroot, ?_⟩
    apply nestedSets_trans root set hset
    cases set
    rw [nestedSets]
    exact List.mem_cons_of_mem _ (subset_mem_setsInSelections _ node hnode subset hsubset)
  spreads_mem set hset node hnode :=
    List.mem_flatMap.mpr ⟨set, hset, List.mem_map_of_mem hnode⟩
  fragments_mem name fragment hfragment :=
    mem_documentSets.mpr ⟨_, mem_of_getFragment hfragment, fragment.selectionSet, rfl,
      mem_nestedSets_self _⟩

/-! ## The rule terminates -/

theorem reports_returns {U : Universe context} {left : ℕ} {s : MergeState}
    (hkeeps : U.Keeps left s) (conflicts : List Conflict) :
    Universe.Returns (Attempt.flatMap (fun conflict => do
      reportError (.fields conflict)
      return ([] : List Unit)) conflicts) s fun _ s' => U.Keeps left s' := by
  refine ends_flatMap (fun conflict _ s hkeeps => ?_) s hkeeps
  exact ⟨hkeeps.cached, hkeeps.remaining_le⟩

theorem enterSelectionSet_returns {U : Universe context} {left depth : ℕ}
    {s : MergeState} (hcompare : U.Suffices (comparers context depth) left U.bound)
    {entered : Option Text × SelectionSetNode} (hset : entered.2 ∈ U.sets)
    (hkeeps : U.Keeps left s) :
    Universe.Returns (enterSelectionSet context depth entered) s
      fun _ s' => U.Keeps left s' := by
  rw [enterSelectionSet, Universe.Returns, ends_bind]
  refine (Universe.findConflictsWithinSelectionSet_returns hcompare entered.1 hset
    hkeeps).mono ?_
  intro conflicts s' hkeeps'
  exact reports_returns hkeeps' conflicts

/-- A depth of calls that suffices for the document. -/
noncomputable def sufficientDepth (context : ValidationContext) : ℕ :=
  (documentUniverse context).remaining {} * ((documentUniverse context).bound + 2) + 1 +
    (documentUniverse context).bound

theorem overlappingFieldsCanBeMerged_isSome {depth : ℕ}
    (hdepth : sufficientDepth context ≤ depth) :
    (overlappingFieldsCanBeMerged context depth).isSome := by
  let U := documentUniverse context
  have hcompare : U.Suffices (comparers context depth) (U.remaining {}) U.bound :=
    Universe.comparers_suffices depth _ _ hdepth
  have hinitial : U.Keeps (U.remaining {}) {} :=
    ⟨fun _ _ _ hget => (nomatch hget), le_rfl⟩
  have hreturns : Universe.Returns
      (Attempt.flatMap (enterSelectionSet context depth) context.enterDocument) {}
      fun _ s' => U.Keeps (U.remaining {}) s' := by
    refine ends_flatMap (fun entered hentered s hkeeps => ?_) _ hinitial
    refine enterSelectionSet_returns hcompare ?_ hkeeps
    have hmem : entered.2 ∈ context.enterDocument.map Prod.snd :=
      List.mem_map_of_mem hentered
    rwa [map_enterDocument] at hmem
  rw [overlappingFieldsCanBeMerged]
  split
  · rfl
  · next hdeep => exact absurd hreturns ((ends_of_error hdeep).not.mpr id)

/-! ## The result does not depend on the depth -/

/-- Where the functions return, the other ones return the same. -/
structure Comparers.Extended (compare compare' : Comparers) : Prop where
  fieldsAndFragment : ∀ exclusive fieldMap spread, Attempt.Extended
    (compare.betweenFieldsAndFragment exclusive fieldMap spread)
    (compare'.betweenFieldsAndFragment exclusive fieldMap spread)
  fragments : ∀ exclusive spread1 spread2, Attempt.Extended
    (compare.betweenFragments exclusive spread1 spread2)
    (compare'.betweenFragments exclusive spread1 spread2)
  subSelectionSets : ∀ exclusive parentType1 set1 varMap1 parentType2 set2 varMap2,
    Attempt.Extended
      (compare.betweenSubSelectionSets exclusive parentType1 set1 varMap1 parentType2
        set2 varMap2)
      (compare'.betweenSubSelectionSets exclusive parentType1 set1 varMap1 parentType2
        set2 varMap2)

section Extended

variable {compare compare' : Comparers} (h : compare.Extended compare')

include h

theorem findConflict_extended (exclusive : Bool) (responseName : Text)
    (field1 : NodeAndDef) (varMap1 : VarMap) (field2 : NodeAndDef) (varMap2 : VarMap) :
    Attempt.Extended
      (findConflict context compare exclusive responseName field1 varMap1 field2 varMap2)
      (findConflict context compare' exclusive responseName field1 varMap1 field2
        varMap2) := by
  unfold findConflict
  dsimp only
  split
  · exact .refl _
  · split
    · exact (h.subSelectionSets _ _ _ _ _ _ _).bind fun _ => .refl _
    · exact .refl _

theorem collectConflictsBetween_extended (exclusive : Bool) (fieldMap1 : FieldMap)
    (varMap1 : VarMap) (fieldMap2 : FieldMap) (varMap2 : VarMap) : Attempt.Extended
      (collectConflictsBetween context compare exclusive fieldMap1 varMap1 fieldMap2
        varMap2)
      (collectConflictsBetween context compare' exclusive fieldMap1 varMap1 fieldMap2
        varMap2) :=
  .flatMap (fun _ => .flatMap (fun _ => .flatMap (fun _ =>
    (findConflict_extended h _ _ _ _ _ _).map _) _) _) _

theorem collectConflictsBetweenFieldsAndFragment_extended (exclusive : Bool)
    (fieldMap : FieldMap) (spread : FragmentSpread) : Attempt.Extended
      (collectConflictsBetweenFieldsAndFragment context compare exclusive fieldMap spread)
      (collectConflictsBetweenFieldsAndFragment context compare' exclusive fieldMap
        spread) := by
  unfold collectConflictsBetweenFieldsAndFragment
  refine (Extended.refl _).bind fun before => ?_
  split
  · exact .refl _
  · split
    · exact .refl _
    · refine (Extended.refl _).bind fun cached => ?_
      dsimp only
      split
      · exact .refl _
      · refine (collectConflictsBetween_extended h _ _ _ _ _).bind fun conflicts => ?_
        exact (Extended.flatMap (h.fieldsAndFragment _ _) _).bind fun _ => .refl _

theorem collectConflictsBetweenFragments_extended (exclusive : Bool)
    (spread1 spread2 : FragmentSpread) : Attempt.Extended
      (collectConflictsBetweenFragments context compare exclusive spread1 spread2)
      (collectConflictsBetweenFragments context compare' exclusive spread1 spread2) := by
  unfold collectConflictsBetweenFragments
  split
  · exact .refl _
  · split
    · exact .refl _
    · refine (Extended.refl _).bind fun before => ?_
      split
      · exact .refl _
      · split
        · refine (Extended.refl _).bind fun cached1 => ?_
          refine (Extended.refl _).bind fun cached2 => ?_
          refine (collectConflictsBetween_extended h _ _ _ _ _).bind fun conflicts => ?_
          refine (Extended.flatMap (h.fragments _ _) _).bind fun nested2 => ?_
          exact (Extended.flatMap (fun spread => h.fragments _ spread _) _).bind
            fun nested1 => .refl _
        · exact .refl _

theorem findConflictsBetweenSubSelectionSets_extended (exclusive : Bool)
    (parentType1 : Option Text) (set1 : SelectionSetNode) (varMap1 : VarMap)
    (parentType2 : Option Text) (set2 : SelectionSetNode) (varMap2 : VarMap) :
    Attempt.Extended
      (findConflictsBetweenSubSelectionSets context compare exclusive parentType1 set1
        varMap1 parentType2 set2 varMap2)
      (findConflictsBetweenSubSelectionSets context compare' exclusive parentType1 set1
        varMap1 parentType2 set2 varMap2) := by
  unfold findConflictsBetweenSubSelectionSets
  refine (Extended.refl _).bind fun cached1 => (Extended.refl _).bind fun cached2 => ?_
  refine (collectConflictsBetween_extended h _ _ _ _ _).bind fun conflicts => ?_
  refine (Extended.flatMap (h.fieldsAndFragment _ _) _).bind fun conflicts1 => ?_
  refine (Extended.flatMap (h.fieldsAndFragment _ _) _).bind fun conflicts2 => ?_
  exact (Extended.flatMap (fun _ => .flatMap (h.fragments _ _) _) _).bind
    fun conflicts12 => .refl _

theorem compareFragmentSpreads_extended (fieldMap : FieldMap) :
    ∀ spreads, Attempt.Extended (compareFragmentSpreads compare fieldMap spreads)
      (compareFragmentSpreads compare' fieldMap spreads)
  | [] => .refl _
  | spread :: rest => by
      unfold compareFragmentSpreads
      refine (h.fieldsAndFragment _ _ _).bind fun conflicts => ?_
      refine (Extended.flatMap (h.fragments _ _) _).bind fun conflicts' => ?_
      exact (compareFragmentSpreads_extended fieldMap rest).bind fun _ => .refl _

theorem findConflictsWithinSelectionSet_extended (parentType : Option Text)
    (set : SelectionSetNode) : Attempt.Extended
      (findConflictsWithinSelectionSet context compare parentType set)
      (findConflictsWithinSelectionSet context compare' parentType set) := by
  unfold findConflictsWithinSelectionSet
  refine (Extended.refl _).bind fun cached => ?_
  refine Extended.bind ?_ fun conflicts =>
    (compareFragmentSpreads_extended h _ _).bind fun _ => .refl _
  exact .flatMap (fun _ => .flatMap (fun _ =>
    (findConflict_extended h _ _ _ _ _ _).map _) _) _

end Extended

theorem comparers_extended (context : ValidationContext) : ∀ depth,
    (comparers context depth).Extended (comparers context (depth + 1))
  | 0 => ⟨fun _ _ _ => extended_throw _ _, fun _ _ _ => extended_throw _ _,
      fun _ _ _ _ _ _ _ => extended_throw _ _⟩
  | depth + 1 =>
      ⟨collectConflictsBetweenFieldsAndFragment_extended (comparers_extended context depth),
        collectConflictsBetweenFragments_extended (comparers_extended context depth),
        findConflictsBetweenSubSelectionSets_extended (comparers_extended context depth)⟩

theorem overlappingFieldsCanBeMerged_succ {depth : ℕ} {reported : List MergeError}
    (h : overlappingFieldsCanBeMerged context depth = some reported) :
    overlappingFieldsCanBeMerged context (depth + 1) = some reported := by
  have hextended : Attempt.Extended
      (Attempt.flatMap (enterSelectionSet context depth) context.enterDocument)
      (Attempt.flatMap (enterSelectionSet context (depth + 1)) context.enterDocument) := by
    refine .flatMap (fun entered => ?_) _
    exact (findConflictsWithinSelectionSet_extended (comparers_extended context depth) _
      _).bind fun _ => .refl _
  rw [overlappingFieldsCanBeMerged] at h ⊢
  split at h
  · next hreturns => rw [hextended _ _ _ hreturns]; exact h
  · cases h

/-- The rule terminates for every document, also where fragments spread each other in
cycles: the calls are nested to a finite depth, and following them deeper does not
change what is reported. -/
theorem overlappingFieldsCanBeMerged_terminates (context : ValidationContext) :
    ∃ depth reported, ∀ depth' ≥ depth,
      overlappingFieldsCanBeMerged context depth' = some reported := by
  have hsome : (overlappingFieldsCanBeMerged context (sufficientDepth context)).isSome :=
    overlappingFieldsCanBeMerged_isSome le_rfl
  obtain ⟨reported, hreported⟩ := Option.isSome_iff_exists.mp hsome
  refine ⟨sufficientDepth context, reported, fun depth' hle => ?_⟩
  induction hle with
  | refl => exact hreported
  | step _ ih => exact overlappingFieldsCanBeMerged_succ ih

end GraphqlCore.Validation
