import GraphqlCore.Language.ValueTexts
import GraphqlCore.Utilities.NaturalOrder

/-!
# Sorted values are canonical

Two literals have the same text after sorting exactly if they are equal up to the order of
the fields of their objects.
-/

namespace GraphqlCore

open Language

/-! ## Equality up to the order of fields -/

mutual

/-- The values are equal but for their locations and the order of fields at any depth. -/
inductive SameValue : ValueNode → ValueNode → Prop
  | content {value value' : ValueNode} (h : value.content = value'.content) :
      SameValue value value'
  | list {values values' : List ValueNode} {loc loc' : Option Location}
      (h : SameValues values values') : SameValue (.list values loc) (.list values' loc')
  | object {fields fields' : List ObjectFieldNode} {loc loc' : Option Location}
      (h : SameFields fields fields') : SameValue (.object fields loc) (.object fields' loc')

inductive SameValues : List ValueNode → List ValueNode → Prop
  | nil : SameValues [] []
  | cons {value value' : ValueNode} {values values' : List ValueNode}
      (hvalue : SameValue value value') (h : SameValues values values') :
      SameValues (value :: values) (value' :: values')

/-- The fields of one object are found among those of the other one, anywhere. -/
inductive SameFields : List ObjectFieldNode → List ObjectFieldNode → Prop
  | nil : SameFields [] []
  | cons {field field' : ObjectFieldNode} {fields before behind : List ObjectFieldNode}
      (hname : field.name.value = field'.name.value) (hvalue : SameValue field.value field'.value)
      (h : SameFields fields (before ++ behind)) :
      SameFields (field :: fields) (before ++ field' :: behind)

end

mutual

/-- The names of the fields of every object are different. -/
def HasUniqueNames : ValueNode → Prop
  | .list values _ => HaveUniqueNames values
  | .object fields _ => (fields.map fun field => field.name.value).Nodup ∧ FieldsUnique fields
  | _ => True

def HaveUniqueNames : List ValueNode → Prop
  | [] => True
  | value :: values => HasUniqueNames value ∧ HaveUniqueNames values

def FieldsUnique : List ObjectFieldNode → Prop
  | [] => True
  | ⟨_, value, _⟩ :: fields => HasUniqueNames value ∧ FieldsUnique fields

end

theorem fieldsUnique_cons (field : ObjectFieldNode) (fields : List ObjectFieldNode) :
    FieldsUnique (field :: fields) = (HasUniqueNames field.value ∧ FieldsUnique fields) := by
  obtain ⟨name, value, loc⟩ := field
  rw [FieldsUnique]

/-! ## Sorting -/

def fieldName (field : ObjectFieldNode) : Text := field.name.value

def sortField (field : ObjectFieldNode) : ObjectFieldNode :=
  ⟨field.name, sortValueNode field.value, field.loc⟩

theorem sortFieldValues_eq (fields : List ObjectFieldNode) :
    sortFieldValues fields = fields.map sortField := by
  induction fields with
  | nil => rfl
  | cons field fields ih =>
      obtain ⟨name, value, loc⟩ := field
      rw [sortFieldValues, ih, List.map_cons]
      rfl

theorem sortValueNodes_eq (values : List ValueNode) :
    sortValueNodes values = values.map sortValueNode := by
  induction values with
  | nil => rfl
  | cons value values ih => rw [sortValueNodes, ih, List.map_cons]

/-- The fields are sorted by their names. -/
theorem sortValueNode_object (fields : List ObjectFieldNode) (loc : Option Location) :
    sortValueNode (.object fields loc) =
      .object (sortBy nameLe fieldName (fields.map sortField)) loc := by
  rw [sortValueNode, sortFieldValues_eq]
  rfl

/-- The content of a sorted object consists of the sorted contents of its fields. -/
theorem content_sortBy (fields : List ObjectFieldNode) :
    (sortBy nameLe fieldName fields).map ObjectFieldNode.content =
      sortBy nameLe fieldName (fields.map ObjectFieldNode.content) := by
  have hname : ∀ field : ObjectFieldNode, fieldName field.content = fieldName field := fun _ => rfl
  exact map_sortBy hname fields

/-- The content of a sorted field. -/
def sortedContent (field : ObjectFieldNode) : ObjectFieldNode := (sortField field).content

theorem content_sortValueNode_object (fields : List ObjectFieldNode) (loc : Option Location) :
    (sortValueNode (.object fields loc)).content =
      .object (sortBy nameLe fieldName (fields.map sortedContent)) none := by
  rw [sortValueNode_object, ValueNode.content, fieldContents_eq, content_sortBy, List.map_map]
  rfl

theorem content_sortValueNode_list (values : List ValueNode) (loc : Option Location) :
    (sortValueNode (.list values loc)).content =
      .list (values.map fun value => (sortValueNode value).content) none := by
  rw [sortValueNode, ValueNode.content, contents_eq, sortValueNodes_eq, List.map_map]
  rfl

mutual

/-- Locations do not matter for sorting. -/
theorem content_sortValueNode : ∀ value : ValueNode,
    (sortValueNode value).content = sortValueNode value.content
  | .variable _ | .int _ _ | .float _ _ | .string _ | .boolean _ _ | .null _ | .enum _ _ => rfl
  | .list values loc => by
      rw [content_sortValueNode_list, ValueNode.content, contents_eq, sortValueNode,
        sortValueNodes_eq, List.map_map]
      exact congrArg (ValueNode.list · none) (content_sortValueNodes values)
  | .object fields loc => by
      rw [content_sortValueNode_object, ValueNode.content, fieldContents_eq, sortValueNode_object,
        List.map_map, content_sortFields fields]

theorem content_sortValueNodes : ∀ values : List ValueNode,
    values.map (fun value => (sortValueNode value).content) =
      values.map (sortValueNode ∘ ValueNode.content)
  | [] => rfl
  | value :: values => by
      rw [List.map_cons, List.map_cons, content_sortValueNode value, content_sortValueNodes values]
      rfl

theorem content_sortFields : ∀ fields : List ObjectFieldNode,
    fields.map sortedContent = fields.map (sortField ∘ ObjectFieldNode.content)
  | [] => rfl
  | ⟨name, value, loc⟩ :: fields => by
      rw [List.map_cons, List.map_cons, content_sortFields fields, sortedContent, sortField,
        ObjectFieldNode.content, content_sortValueNode value]
      rfl

end

/-! ## Sorted values are the same -/

/-- Fields with the same name are the same. -/
theorem eq_of_fieldName_eq {fields : List ObjectFieldNode}
    (h : (fields.map fun field => field.name.value).Nodup) :
    ∀ field ∈ fields.map sortedContent, ∀ field' ∈ fields.map sortedContent,
      fieldName field = fieldName field' → field = field' := by
  intro field hfield field' hfield' hname
  obtain ⟨field, hmem, rfl⟩ := List.mem_map.mp hfield
  obtain ⟨field', hmem', rfl⟩ := List.mem_map.mp hfield'
  rw [List.inj_on_of_nodup_map h hmem hmem' hname]

mutual

theorem SameValue.sorted_eq {value value' : ValueNode} : SameValue value value' →
    HasUniqueNames value → (sortValueNode value).content = (sortValueNode value').content
  | .content h, _ => by rw [content_sortValueNode, h, ← content_sortValueNode]
  | .list h, hunique => by
      rw [content_sortValueNode_list, content_sortValueNode_list, h.sorted_eq hunique]
  | .object h, hunique => by
      rw [content_sortValueNode_object, content_sortValueNode_object,
        sortBy_eq_of_perm nameLe_isLinear (h.sorted_perm hunique.2) (eq_of_fieldName_eq hunique.1)]

theorem SameValues.sorted_eq {values values' : List ValueNode} : SameValues values values' →
    HaveUniqueNames values → values.map (fun value => (sortValueNode value).content) =
      values'.map fun value => (sortValueNode value).content
  | .nil, _ => rfl
  | .cons hvalue h, hunique => by
      rw [List.map_cons, List.map_cons, hvalue.sorted_eq hunique.1, h.sorted_eq hunique.2]

theorem SameFields.sorted_perm {fields fields' : List ObjectFieldNode} : SameFields fields fields' →
    FieldsUnique fields → (fields.map sortedContent).Perm (fields'.map sortedContent)
  | .nil, _ => .nil
  | @SameFields.cons field field' _ _ _ hname hvalue h, hunique => by
      rw [fieldsUnique_cons] at hunique
      have hfield : sortedContent field = sortedContent field' := by
        rw [sortedContent, sortedContent, sortField, sortField, ObjectFieldNode.content,
          ObjectFieldNode.content, hname, hvalue.sorted_eq hunique.1]
      have hrest := h.sorted_perm hunique.2
      rw [List.map_append] at hrest
      rw [List.map_cons, List.map_append, List.map_cons, hfield]
      exact (hrest.cons _).trans List.perm_middle.symm

end

/-! ## Values that are sorted to the same one -/

mutual

theorem sameValue_of_sorted_eq : ∀ value value' : ValueNode,
    (sortValueNode value).content = (sortValueNode value').content → SameValue value value'
  | .variable _, value', h | .int _ _, value', h | .float _ _, value', h | .string _, value', h
  | .boolean _ _, value', h | .null _, value', h | .enum _ _, value', h => by
      refine .content (h.trans ?_)
      cases value' with
      | list | object => cases h
      | _ => rfl
  | .list values loc, value', h => by
      cases value' with
      | list values' loc' =>
          rw [content_sortValueNode_list, content_sortValueNode_list] at h
          exact .list (sameValues_of_sorted_eq values values' (ValueNode.list.inj h).1)
      | _ => cases h
  | .object fields loc, value', h => by
      cases value' with
      | object fields' loc' =>
          rw [content_sortValueNode_object, content_sortValueNode_object] at h
          refine .object (sameFields_of_sorted_perm fields fields' ?_)
          have hsorted := (ValueNode.object.inj h).1
          exact (sortBy_perm nameLe fieldName _).symm.trans
            (hsorted ▸ sortBy_perm nameLe fieldName (fields'.map sortedContent))
      | _ => cases h

theorem sameValues_of_sorted_eq : ∀ values values' : List ValueNode,
    values.map (fun value => (sortValueNode value).content) =
      values'.map (fun value => (sortValueNode value).content) → SameValues values values'
  | [], [], _ => .nil
  | value :: values, value' :: values', h =>
      .cons (sameValue_of_sorted_eq value value' (List.cons.inj h).1)
        (sameValues_of_sorted_eq values values' (List.cons.inj h).2)
  | [], _ :: _, h => nomatch h
  | _ :: _, [], h => nomatch h

theorem sameFields_of_sorted_perm : ∀ fields fields' : List ObjectFieldNode,
    (fields.map sortedContent).Perm (fields'.map sortedContent) → SameFields fields fields'
  | [], fields', h => by
      obtain rfl := List.map_eq_nil_iff.mp (List.nil_perm.mp h)
      exact .nil
  | ⟨name, value, loc⟩ :: fields, fields', h => by
      have hmem := h.subset List.mem_cons_self
      obtain ⟨field', hfield', heq⟩ := List.mem_map.mp hmem
      obtain ⟨before, behind, rfl⟩ := List.append_of_mem hfield'
      have hrest : (fields.map sortedContent).Perm ((before ++ behind).map sortedContent) := by
        rw [List.map_append, List.map_cons, List.map_cons, heq] at h
        rw [List.map_append]
        exact (h.trans List.perm_middle).cons_inv
      obtain ⟨hname, hvalue, -⟩ := ObjectFieldNode.mk.inj heq
      exact .cons (NameNode.mk.inj hname).1.symm
        (sameValue_of_sorted_eq value field'.value hvalue.symm)
        (sameFields_of_sorted_perm fields (before ++ behind) hrest)

end

/-! ## Sorted literals -/

theorem sortField_isField {fields : List ObjectFieldNode} (h : ∀ field ∈ fields, field.IsField)
    (hsort : ∀ field ∈ fields, (sortValueNode field.value).IsLiteral) :
    ∀ field ∈ sortBy nameLe fieldName (fields.map sortField), field.IsField := by
  intro field hfield
  obtain ⟨field, hmem, rfl⟩ := List.mem_map.mp (mem_sortBy.mp hfield)
  exact ⟨(h field hmem).1, hsort field hmem⟩

mutual

theorem isLiteral_sortValueNode : ∀ value : ValueNode, value.IsLiteral →
    (sortValueNode value).IsLiteral
  | .variable _, h | .int _ _, h | .float _ _, h | .string _, h
  | .boolean _ _, h | .null _, h | .enum _ _, h => h
  | .list values _, h => by
      rw [sortValueNode, ValueNode.IsLiteral, areLiterals_iff, sortValueNodes_eq]
      intro value hvalue
      obtain ⟨value, hmem, rfl⟩ := List.mem_map.mp hvalue
      exact areLiterals_sortValueNodes values h value hmem
  | .object fields _, h => by
      rw [sortValueNode_object, ValueNode.IsLiteral, areFields_iff]
      exact sortField_isField (areFields_iff.mp h) (areLiterals_sortFields fields h)

theorem areLiterals_sortValueNodes : ∀ values : List ValueNode, AreLiterals values →
    ∀ value ∈ values, (sortValueNode value).IsLiteral
  | [], _, _, hmem => nomatch hmem
  | value :: values, h, value', hmem => by
      rcases List.mem_cons.mp hmem with heq | hmem
      · rw [heq]
        exact isLiteral_sortValueNode value h.1
      · exact areLiterals_sortValueNodes values h.2 value' hmem

theorem areLiterals_sortFields : ∀ fields : List ObjectFieldNode, AreFields fields →
    ∀ field ∈ fields, (sortValueNode field.value).IsLiteral
  | [], _, _, hmem => nomatch hmem
  | ⟨name, value, loc⟩ :: fields, h, field, hmem => by
      rcases List.mem_cons.mp hmem with heq | hmem
      · rw [heq]
        exact isLiteral_sortValueNode value h.2.1
      · exact areLiterals_sortFields fields h.2.2 field hmem

end

/-! ## Main result -/

/-- Literals whose objects have different field names have the same text after sorting
exactly if they are equal up to the order of fields. -/
theorem printValue_sortValueNode_eq_iff {value value' : ValueNode} (h : value.IsLiteral)
    (h' : value'.IsLiteral) (hunique : HasUniqueNames value) :
    printValue (sortValueNode value) = printValue (sortValueNode value') ↔
      SameValue value value' := by
  constructor
  · intro heq
    exact sameValue_of_sorted_eq value value' (content_eq_of_printValue_eq
      (isLiteral_sortValueNode value h) (isLiteral_sortValueNode value' h') heq)
  · intro hsame
    rw [← printValue_content, hsame.sorted_eq hunique, printValue_content]

/-- A field with a word as its value. -/
def fieldOf (name : String) (value : ValueNode) : ObjectFieldNode := ⟨⟨str name, none⟩, value, none⟩

/-- Two fields of an object in a list, in either order. -/
theorem printValue_sortValueNode_eq_iff_swapped :
    printValue (sortValueNode (.list [.object
        [fieldOf "a10" (.null none), fieldOf "a9" (.boolean true none)] none] none)) =
      printValue (sortValueNode (.list [.object
        [fieldOf "a9" (.boolean true none), fieldOf "a10" (.null none)] none] none)) ↔
    SameValue
      (.list [.object [fieldOf "a10" (.null none), fieldOf "a9" (.boolean true none)] none] none)
      (.list [.object [fieldOf "a9" (.boolean true none), fieldOf "a10" (.null none)] none]
        none) := by
  have hname : IsName (str "a9") := ⟨97, str "9", rfl, rfl, by decide⟩
  have hname' : IsName (str "a10") := ⟨97, str "10", rfl, rfl, by decide⟩
  exact printValue_sortValueNode_eq_iff ⟨⟨hname', trivial, hname, trivial, trivial⟩, trivial⟩
    ⟨⟨hname, trivial, hname', trivial, trivial⟩, trivial⟩
    ⟨⟨by decide, trivial, trivial, trivial⟩, trivial⟩

end GraphqlCore
