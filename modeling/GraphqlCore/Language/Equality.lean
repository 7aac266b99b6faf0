import GraphqlCore.Language.Ast

/-!
# Equality of nodes

Nodes are compared by their attributes, of which the location is one.
-/

namespace GraphqlCore.Language

/-! ## Values -/

mutual

def ValueNode.eq : ValueNode → ValueNode → Bool
  | .variable node, .variable node' => node = node'
  | .int value loc, .int value' loc' => value = value' && loc = loc'
  | .float value loc, .float value' loc' => value = value' && loc = loc'
  | .string node, .string node' => node = node'
  | .boolean value loc, .boolean value' loc' => value = value' && loc = loc'
  | .null loc, .null loc' => loc = loc'
  | .enum value loc, .enum value' loc' => value = value' && loc = loc'
  | .list values loc, .list values' loc' => valuesEq values values' && loc = loc'
  | .object fields loc, .object fields' loc' => fieldsEq fields fields' && loc = loc'
  | _, _ => false

def valuesEq : List ValueNode → List ValueNode → Bool
  | [], [] => true
  | value :: rest, value' :: rest' => value.eq value' && valuesEq rest rest'
  | _, _ => false

def fieldsEq : List ObjectFieldNode → List ObjectFieldNode → Bool
  | [], [] => true
  | ⟨name, value, loc⟩ :: rest, ⟨name', value', loc'⟩ :: rest' =>
      name = name' && value.eq value' && loc = loc' && fieldsEq rest rest'
  | _, _ => false

end

mutual

theorem ValueNode.eq_iff : ∀ value value' : ValueNode, value.eq value' ↔ value = value'
  | .variable node, value' => by cases value' <;> simp [ValueNode.eq]
  | .int value loc, value' => by cases value' <;> simp [ValueNode.eq]
  | .float value loc, value' => by cases value' <;> simp [ValueNode.eq]
  | .string node, value' => by cases value' <;> simp [ValueNode.eq]
  | .boolean value loc, value' => by cases value' <;> simp [ValueNode.eq]
  | .null loc, value' => by cases value' <;> simp [ValueNode.eq]
  | .enum value loc, value' => by cases value' <;> simp [ValueNode.eq]
  | .list values loc, value' => by
      cases value' <;> simp [ValueNode.eq, valuesEq_iff values]
  | .object fields loc, value' => by
      cases value' <;> simp [ValueNode.eq, fieldsEq_iff fields]

theorem valuesEq_iff : ∀ values values' : List ValueNode,
    valuesEq values values' ↔ values = values'
  | [], values' => by cases values' <;> simp [valuesEq]
  | value :: rest, values' => by
      cases values' <;> simp [valuesEq, ValueNode.eq_iff value, valuesEq_iff rest]

theorem fieldsEq_iff : ∀ fields fields' : List ObjectFieldNode,
    fieldsEq fields fields' ↔ fields = fields'
  | [], fields' => by cases fields' <;> simp [fieldsEq]
  | ⟨name, value, loc⟩ :: rest, fields' => by
      cases fields' with
      | nil => simp [fieldsEq]
      | cons field rest' =>
          obtain ⟨name', value', loc'⟩ := field
          simp [fieldsEq, ValueNode.eq_iff value, fieldsEq_iff rest, and_assoc]

end

instance : DecidableEq ValueNode := fun value value' =>
  decidable_of_iff _ (ValueNode.eq_iff value value')

deriving instance DecidableEq for ArgumentNode, FragmentArgumentNode
deriving instance DecidableEq for DirectiveNode
deriving instance DecidableEq for FragmentSpreadNode

/-! ## Selections -/

mutual

def SelectionNode.eq : SelectionNode → SelectionNode → Bool
  | .field ⟨fieldAlias, name, arguments, directives, selectionSet, loc⟩,
      .field ⟨fieldAlias', name', arguments', directives', selectionSet', loc'⟩ =>
      fieldAlias = fieldAlias' && name = name' && arguments = arguments' &&
        directives = directives' && subselectionEq selectionSet selectionSet' &&
        loc = loc'
  | .fragmentSpread node, .fragmentSpread node' => node = node'
  | .inlineFragment ⟨typeCondition, directives, ⟨selections, setLoc⟩, loc⟩,
      .inlineFragment ⟨typeCondition', directives', ⟨selections', setLoc'⟩, loc'⟩ =>
      typeCondition = typeCondition' && directives = directives' &&
        selectionsEq selections selections' && setLoc = setLoc' && loc = loc'
  | _, _ => false

def subselectionEq : Option SelectionSetNode → Option SelectionSetNode → Bool
  | none, none => true
  | some ⟨selections, loc⟩, some ⟨selections', loc'⟩ =>
      selectionsEq selections selections' && loc = loc'
  | _, _ => false

def selectionsEq : List SelectionNode → List SelectionNode → Bool
  | [], [] => true
  | selection :: rest, selection' :: rest' =>
      selection.eq selection' && selectionsEq rest rest'
  | _, _ => false

end

mutual

theorem SelectionNode.eq_iff : ∀ selection selection' : SelectionNode,
    selection.eq selection' ↔ selection = selection'
  | .field ⟨fieldAlias, name, arguments, directives, selectionSet, loc⟩, selection' => by
      cases selection' with
      | field node =>
          obtain ⟨fieldAlias', name', arguments', directives', selectionSet', loc'⟩ := node
          simp [SelectionNode.eq, subselectionEq_iff selectionSet, and_assoc]
      | fragmentSpread node => simp [SelectionNode.eq]
      | inlineFragment node => simp [SelectionNode.eq]
  | .fragmentSpread node, selection' => by cases selection' <;> simp [SelectionNode.eq]
  | .inlineFragment ⟨typeCondition, directives, ⟨selections, setLoc⟩, loc⟩,
      selection' => by
      cases selection' with
      | field node => simp [SelectionNode.eq]
      | fragmentSpread node => simp [SelectionNode.eq]
      | inlineFragment node =>
          obtain ⟨typeCondition', directives', ⟨selections', setLoc'⟩, loc'⟩ := node
          simp [SelectionNode.eq, selectionsEq_iff selections, and_assoc]

theorem subselectionEq_iff : ∀ selectionSet selectionSet' : Option SelectionSetNode,
    subselectionEq selectionSet selectionSet' ↔ selectionSet = selectionSet'
  | none, selectionSet' => by cases selectionSet' <;> simp [subselectionEq]
  | some ⟨selections, loc⟩, selectionSet' => by
      cases selectionSet' with
      | none => simp [subselectionEq]
      | some selectionSet' =>
          obtain ⟨selections', loc'⟩ := selectionSet'
          simp [subselectionEq, selectionsEq_iff selections]

theorem selectionsEq_iff : ∀ selections selections' : List SelectionNode,
    selectionsEq selections selections' ↔ selections = selections'
  | [], selections' => by cases selections' <;> simp [selectionsEq]
  | selection :: rest, selections' => by
      cases selections' <;>
        simp [selectionsEq, SelectionNode.eq_iff selection, selectionsEq_iff rest]

end

instance : DecidableEq SelectionNode := fun selection selection' =>
  decidable_of_iff _ (SelectionNode.eq_iff selection selection')

instance : DecidableEq SelectionSetNode := fun set set' =>
  decidable_of_iff (set.selections = set'.selections ∧ set.loc = set'.loc)
    (by cases set; cases set'; simp)

end GraphqlCore.Language
