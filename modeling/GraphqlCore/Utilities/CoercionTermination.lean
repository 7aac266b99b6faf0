import GraphqlCore.Type.DefaultValueCircularRefs
import GraphqlCore.Utilities.LiteralConverters

/-!
# Termination of the coercion of default values

The coercion of an input object coerces the default values of the fields that are left out.
It ends if the default values, expanded with those of the fields that they leave out, do not
reach themselves.
-/

namespace GraphqlCore.ValueLiterals

open Language

variable {floats : FloatFormat} {Custom : Type}

/-! ## Computations that end -/

/-- Default values are not nested too deep for the computation. -/
def Ends {α : Type} (x : Except Stop α) : Prop := x ≠ .error .tooDeep

namespace Ends

variable {α β : Type} {x : Except Stop α}

theorem ok (a : α) : Ends (.ok a : Except Stop α) := fun h => nomatch h

theorem undefined : Ends (.error .undefined : Except Stop α) :=
  fun h => nomatch h

theorem bind {f : α → Except Stop β} (hx : Ends x) (hf : ∀ a, Ends (f a)) :
    Ends (x >>= f) := by
  cases x with
  | ok a => exact hf a
  | error stop => exact fun h => hx (congrArg Except.error (Except.error.inj h))

theorem map {g : α → β} (hx : Ends x) : Ends (g <$> x) := by
  cases x with
  | ok a => exact ok (g a)
  | error stop => exact fun h => hx (congrArg Except.error (Except.error.inj h))

theorem finishLeaf (result : Option (HostValue floats)) :
    Ends (ValueLiterals.finishLeaf result) := by
  rcases finishLeaf_cases result with ⟨coerced, h⟩ | h <;> rw [h]
  · exact ok coerced
  · exact undefined

end Ends

/-! ## The fields that are left out -/

section LeftOut

variable {types : InputTypes floats Custom} {reading : Reading floats} {inputObj : Text}
  {key : FieldKey}

theorem mem_leftOutOfItems {items : List (HostValue floats)} :
    key ∈ leftOutOfItems types reading inputObj items ↔
      ∃ item ∈ items, key ∈ leftOutOfValue types reading inputObj item := by
  induction items with
  | nil => simp [leftOutOfItems]
  | cons item rest ih => rw [leftOutOfItems, List.mem_append, ih, List.exists_mem_cons_iff]

theorem mem_leftOutOfItemLiterals {values : List ValueNode} :
    key ∈ leftOutOfItemLiterals types reading inputObj values ↔
      ∃ value ∈ values, key ∈ leftOutOfLiteral types reading inputObj value := by
  induction values with
  | nil => simp [leftOutOfItemLiterals]
  | cons value rest ih =>
      rw [leftOutOfItemLiterals, List.mem_append, ih, List.exists_mem_cons_iff]

/-- What is left out at one field of an object. -/
def leftOutAt (types : InputTypes floats Custom) (reading : Reading floats) (inputObj : Text)
    (entries : List (Text × HostValue floats)) (fieldDef : Text × InputField floats) :
    List FieldKey :=
  match reading.entry entries fieldDef.1 with
  | some value => leftOutOfValue types reading fieldDef.2.type.getNamedType value
  | none => [(inputObj, fieldDef.1)]

theorem leftOutOfEntries_eq (entries : List (Text × HostValue floats))
    (fields : List (Text × InputField floats)) :
    leftOutOfEntries types reading inputObj entries fields =
      fields.flatMap (leftOutAt types reading inputObj entries) := by
  induction fields with
  | nil => rw [leftOutOfEntries, List.flatMap_nil]
  | cons fieldDef rest ih =>
      obtain ⟨fieldName, field⟩ := fieldDef
      rw [leftOutOfEntries, ih, List.flatMap_cons, leftOutAt]
      refine congrArg (· ++ _) ?_
      split
      · rename_i value hentry
        simp only [hentry]
      · rename_i hentry
        simp only [hentry]

def leftOutAtNode (types : InputTypes floats Custom) (reading : Reading floats)
    (inputObj : Text) (nodes : List (Text × ValueNode)) (fieldDef : Text × InputField floats) :
    List FieldKey :=
  match reading.node nodes fieldDef.1 with
  | some literal => leftOutOfLiteral types reading fieldDef.2.type.getNamedType literal
  | none => [(inputObj, fieldDef.1)]

theorem leftOutOfNodes_eq (nodes : List (Text × ValueNode))
    (fields : List (Text × InputField floats)) :
    leftOutOfNodes types reading inputObj nodes fields =
      fields.flatMap (leftOutAtNode types reading inputObj nodes) := by
  induction fields with
  | nil => rw [leftOutOfNodes, List.flatMap_nil]
  | cons fieldDef rest ih =>
      obtain ⟨fieldName, field⟩ := fieldDef
      rw [leftOutOfNodes, ih, List.flatMap_cons, leftOutAtNode]
      refine congrArg (· ++ _) ?_
      split
      · rename_i literal hnode
        simp only [hnode]
      · rename_i hnode
        simp only [hnode]

theorem leftOutOfValue_object {name : Text} {fields : Dict Text (InputField floats)}
    {isOneOf : Bool} (hnamed : types.named name = .inputObject fields isOneOf)
    (entries : List (Text × HostValue floats)) :
    leftOutOfValue types reading name (.mapping true entries) =
      fields.items.flatMap (leftOutAt types reading name entries) := by
  have hfields : types.inputFields name = fields := by rw [InputTypes.inputFields, hnamed]
  rw [leftOutOfValue, leftOutOfEntries_eq, hfields]

theorem leftOutOfLiteral_object {name : Text} {fields : Dict Text (InputField floats)}
    {isOneOf : Bool} (hnamed : types.named name = .inputObject fields isOneOf)
    (nodes : List ObjectFieldNode) (loc : Option Location) :
    leftOutOfLiteral types reading name (.object nodes loc) =
      fields.items.flatMap (leftOutAtNode types reading name (fieldNodes nodes)) := by
  have hfields : types.inputFields name = fields := by rw [InputTypes.inputFields, hnamed]
  rw [leftOutOfLiteral, leftOutOfNodes_eq, hfields]

end LeftOut

/-! ## Coercion with defaults that end -/

section Coercion

variable {types : InputTypes floats Custom} {coerceDefault : DefaultCoercion floats}
  {variableValues : Variables floats}

/-- The coercion of the default value of a field ends. -/
def DefaultEnds (types : InputTypes floats Custom) (coerceDefault : DefaultCoercion floats)
    (key : FieldKey) : Prop :=
  ∀ field, (types.inputFields key.1).get key.2 = some field → Ends (coerceDefault field)

theorem ends_coerceItems {items : List (HostValue floats)} {itemType : GraphQLType}
    (h : ∀ item ∈ items, Ends (coerceInputValue types coerceDefault item itemType)) :
    Ends (coerceItems types coerceDefault items itemType) := by
  induction items with
  | nil =>
      rw [coerceItems]
      exact .ok []
  | cons item rest ih =>
      rw [List.forall_mem_cons] at h
      rw [coerceItems]
      exact h.1.bind fun _ => (ih h.2).bind fun _ => .ok _

theorem ends_coerceItemNodes {values : List ValueNode} {itemType : GraphQLType}
    (h : ∀ value ∈ values,
      Ends (coerceInputLiteral types variableValues coerceDefault value itemType)) :
    Ends (coerceItemNodes types variableValues coerceDefault values itemType) := by
  induction values with
  | nil =>
      rw [coerceItemNodes]
      exact .ok []
  | cons value rest ih =>
      rw [List.forall_mem_cons] at h
      rw [coerceItemNodes]
      refine Ends.bind ?_ fun _ => (ih h.2).bind fun _ => .ok _
      split
      · exact .ok _
      · exact h.1

/-- What stands for a field that is left out. -/
theorem ends_useDefault {field : InputField floats} (h : Ends (coerceDefault field)) :
    Ends (if field.isRequired then .error .undefined else coerceDefault field) := by
  split
  · exact .undefined
  · exact h

theorem ends_coerceFields {entries : List (Text × HostValue floats)}
    {fields : List (Text × InputField floats)} {coercedDict : List (Text × HostValue floats)}
    (hgiven : ∀ fieldDef ∈ fields, ∀ value, given entries fieldDef.1 = some value →
      Ends (coerceInputValue types coerceDefault value fieldDef.2.type))
    (habsent : ∀ fieldDef ∈ fields, given entries fieldDef.1 = none →
      Ends (coerceDefault fieldDef.2)) :
    Ends (coerceFields types coerceDefault entries fields coercedDict) := by
  induction fields generalizing coercedDict with
  | nil =>
      rw [coerceFields]
      exact .ok coercedDict
  | cons fieldDef rest ih =>
      rw [List.forall_mem_cons] at hgiven habsent
      have hrest : ∀ coercedDict,
          Ends (coerceFields types coerceDefault entries rest coercedDict) :=
        fun _ => ih hgiven.2 habsent.2
      obtain ⟨fieldName, field⟩ := fieldDef
      cases hentry : given entries fieldName with
      | some value =>
          rw [coerceFields_given hentry]
          exact (hgiven.1 value hentry).bind fun _ => hrest _
      | none =>
          rw [coerceFields_absent hentry]
          exact (ends_useDefault (habsent.1 hentry)).bind fun _ => hrest _

theorem ends_coerceFieldNodes {nodes : List (Text × ValueNode)}
    {fields : List (Text × InputField floats)} {coercedDict : List (Text × HostValue floats)}
    (hgiven : ∀ fieldDef ∈ fields, ∀ literal,
      (Reading.given variableValues).node nodes fieldDef.1 = some literal →
        Ends (coerceInputLiteral types variableValues coerceDefault literal fieldDef.2.type))
    (habsent : ∀ fieldDef ∈ fields,
      (Reading.given variableValues).node nodes fieldDef.1 = none →
        Ends (coerceDefault fieldDef.2)) :
    Ends (coerceFieldNodes types variableValues coerceDefault nodes fields coercedDict) := by
  induction fields generalizing coercedDict with
  | nil =>
      rw [coerceFieldNodes]
      exact .ok coercedDict
  | cons fieldDef rest ih =>
      rw [List.forall_mem_cons] at hgiven habsent
      have hrest : ∀ coercedDict, Ends
          (coerceFieldNodes types variableValues coerceDefault nodes rest coercedDict) :=
        fun _ => ih hgiven.2 habsent.2
      obtain ⟨fieldName, field⟩ := fieldDef
      cases hnode : (Reading.given variableValues).node nodes fieldName with
      | some literal =>
          obtain ⟨hfind, hpresent⟩ := Option.filter_eq_some_iff.mp hnode
          rw [coerceFieldNodes_given hfind (by simpa using hpresent)]
          exact (hgiven.1 literal hnode).bind fun _ => hrest _
      | none =>
          rw [coerceFieldNodes_absent]
          · exact (ends_useDefault (habsent.1 hnode)).bind fun _ => hrest _
          · intro literal hfind
            simpa using Option.filter_eq_none_iff.mp hnode literal hfind

/-- The coercion of a value ends if that of the default values of all fields that the value
leaves out does. -/
theorem ends_coerceInputValue (value : HostValue floats) (type : GraphQLType)
    (h : ∀ key ∈ leftOutOfValue types (.given variableValues) type.getNamedType value,
      DefaultEnds types coerceDefault key) :
    Ends (coerceInputValue types coerceDefault value type) := by
  induction value, type using position_induction types with
  | missing value type hmissing =>
      rw [coerceInputValue_missing hmissing]
      split
      · exact .undefined
      · exact .ok _
  | nonNull value ofType hmissing ih =>
      rw [coerceInputValue_nonNull hmissing]
      exact ih h
  | list items itemType ih =>
      rw [coerceInputValue_list]
      refine (ends_coerceItems fun item hmem => ih item hmem fun key hkey => h key ?_).map
      rw [leftOutOfValue]
      exact mem_leftOutOfItems.mpr ⟨item, hmem, hkey⟩
  | single value itemType hmissing hlist ih =>
      rw [coerceInputValue_single hmissing hlist]
      exact (ih h).map
  | object name fields isOneOf isDict entries hnamed ih =>
      cases isDict with
      | false =>
          rw [coerceInputValue_noDict hnamed rfl (by simp)]
          exact .undefined
      | true =>
          have hfields : types.inputFields name = fields := by rw [InputTypes.inputFields, hnamed]
          have hparts : ∀ fieldDef ∈ fields.items,
              ∀ key ∈ leftOutAt types (.given variableValues) name entries fieldDef,
                DefaultEnds types coerceDefault key := by
            intro fieldDef hmem key hkey
            refine h key ?_
            rw [GraphQLType.getNamedType, leftOutOfValue_object hnamed]
            exact List.mem_flatMap.mpr ⟨fieldDef, hmem, hkey⟩
          rw [coerceInputValue_object hnamed]
          split
          · exact .undefined
          refine Ends.bind (ends_coerceFields ?_ ?_) fun coercedDict => ?_
          · intro fieldDef hmem value hgiven
            refine ih fieldDef.1 fieldDef.2 value hmem hgiven ?_
            have hpart := hparts fieldDef hmem
            rw [leftOutAt, show (Reading.given variableValues).entry entries fieldDef.1 =
              some value from hgiven] at hpart
            exact hpart
          · intro fieldDef hmem hgiven
            have hpart := hparts fieldDef hmem
            rw [leftOutAt, show (Reading.given variableValues).entry entries fieldDef.1 =
              none from hgiven] at hpart
            refine hpart (name, fieldDef.1) (List.mem_singleton_self _) fieldDef.2 ?_
            rw [hfields]
            exact Dict.mem_items_iff.mp hmem
          · split
            · exact .undefined
            · exact .ok _
  | other value name hmissing hobject =>
      cases hnamed : types.named name with
      | scalar scalar =>
          rw [coerceInputValue_scalar hnamed hmissing]
          exact .finishLeaf _
      | customScalar custom =>
          rw [coerceInputValue_customScalar hnamed hmissing]
          exact .finishLeaf _
      | «enum» values =>
          rw [coerceInputValue_enum hnamed hmissing]
          exact .finishLeaf _
      | inputObject fields isOneOf =>
          rw [coerceInputValue_noDict hnamed hmissing fun entries hvalue =>
            hobject true entries hvalue fields isOneOf hnamed]
          exact .undefined

/-- The coercion of a literal ends if that of the default values of all fields that the
literal leaves out does. -/
theorem ends_coerceInputLiteral (literal : ValueNode) (type : GraphQLType)
    (h : ∀ key ∈ leftOutOfLiteral types (.given variableValues) type.getNamedType literal,
      DefaultEnds types coerceDefault key) :
    Ends (coerceInputLiteral types variableValues coerceDefault literal type) := by
  induction literal, type using literal_induction types with
  | «variable» node type =>
      rw [coerceInputLiteral_variable]
      split
      · exact .undefined
      · exact .ok _
  | null loc type =>
      rw [coerceInputLiteral_null]
      split
      · exact .undefined
      · exact .ok _
  | nonNull literal ofType hpresent ih =>
      rw [coerceInputLiteral_nonNull hpresent]
      exact ih h
  | list values loc itemType ih =>
      rw [coerceInputLiteral_list]
      refine (ends_coerceItemNodes fun value hmem => ih value hmem fun key hkey =>
        h key ?_).map
      rw [leftOutOfLiteral]
      exact mem_leftOutOfItemLiterals.mpr ⟨value, hmem, hkey⟩
  | single literal itemType hplain ih =>
      rw [coerceInputLiteral_single hplain]
      exact (ih h).map
  | object nodes loc name fields isOneOf hnamed ih =>
      have hfields : types.inputFields name = fields := by rw [InputTypes.inputFields, hnamed]
      have hparts : ∀ fieldDef ∈ fields.items,
          ∀ key ∈ leftOutAtNode types (.given variableValues) name (fieldNodes nodes) fieldDef,
            DefaultEnds types coerceDefault key := by
        intro fieldDef hmem key hkey
        refine h key ?_
        rw [GraphQLType.getNamedType, leftOutOfLiteral_object hnamed]
        exact List.mem_flatMap.mpr ⟨fieldDef, hmem, hkey⟩
      rw [coerceInputLiteral_object hnamed]
      split
      · exact .undefined
      refine Ends.bind (ends_coerceFieldNodes ?_ ?_) fun coercedDict => ?_
      · intro fieldDef hmem literal hnode
        refine ih fieldDef hmem literal (Option.filter_eq_some_iff.mp hnode).1 ?_
        have hpart := hparts fieldDef hmem
        rw [leftOutAtNode, hnode] at hpart
        exact hpart
      · intro fieldDef hmem hnode
        have hpart := hparts fieldDef hmem
        rw [leftOutAtNode, hnode] at hpart
        refine hpart (name, fieldDef.1) (List.mem_singleton_self _) fieldDef.2 ?_
        rw [hfields]
        exact Dict.mem_items_iff.mp hmem
      · split
        · exact .undefined
        · exact .ok _
  | other literal name hpresent hobject =>
      cases hnamed : types.named name with
      | scalar scalar =>
          rw [coerceInputLiteral_scalar hnamed hpresent]
          exact .finishLeaf _
      | customScalar custom =>
          rw [coerceInputLiteral_customScalar hnamed hpresent]
          exact .finishLeaf _
      | «enum» values =>
          rw [coerceInputLiteral_enum hnamed hpresent]
          exact .finishLeaf _
      | inputObject fields isOneOf =>
          rw [coerceInputLiteral_noObject hnamed hpresent fun fields loc hliteral =>
            hobject fields loc hliteral _ _ hnamed]
          exact .undefined

/-- Only a default value of an input object type leaves fields out. -/
theorem leftOutOfDefault_eq {reading : Reading floats} {key : FieldKey}
    {field : InputField floats} (hfield : (types.inputFields key.1).get key.2 = some field) :
    leftOutOfDefault types reading key =
      match field.default with
      | none => []
      | some (.value value) => leftOutOfValue types reading field.type.getNamedType value
      | some (.literal literal) =>
          leftOutOfLiteral types reading field.type.getNamedType literal := by
  rw [leftOutOfDefault, InputTypes.defaultOf, hfield, Option.bind_some]
  cases hobject : types.isInputObject field.type.getNamedType with
  | true =>
      cases field.default with
      | none => simp only [hobject, if_true, Option.map_none]
      | some default => cases default <;> simp only [hobject, if_true, Option.map_some]
  | false =>
      have hempty := InputObjectDefaultValueCircularRefsValidator.inputFields_of_not hobject
      simp only [hobject, Bool.false_eq_true, if_false]
      cases field.default with
      | none => rfl
      | some default =>
          cases default with
          | value value => exact (leftOutOfValue_eq_nil hempty value).symm
          | literal literal => exact (leftOutOfLiteral_eq_nil hempty literal).symm

/-- What becomes of a default value ends where its coercion does. -/
theorem ends_default (field : InputField floats) {x : Except Stop (HostValue floats)}
    (hx : Ends x) : Ends (match some x with
      | none => .ok (if field.defaultValue.isUndefined then none else some field.defaultValue)
      | some (.error .undefined) => .error (.invalidDefault field.type)
      | some (.error stop) => .error stop
      | some (.ok value) => .ok (some value)) := by
  cases x with
  | ok value => exact .ok _
  | error stop =>
      cases stop with
      | tooDeep => exact absurd rfl hx
      | _ => exact fun h => by cases h

/-- The coercion of the default value of a field ends one level above that of the fields
that it leaves out. -/
theorem defaultEnds_succ {depth : ℕ} {key : FieldKey}
    (h : ∀ target ∈ leftOutOfDefault types (.given none) key,
      DefaultEnds types (coerceDefaultValue types depth) target) :
    DefaultEnds types (coerceDefaultValue types (depth + 1)) key := by
  intro field hfield
  rw [leftOutOfDefault_eq hfield] at h
  rw [coerceDefaultValue]
  cases hdefault : field.default with
  | none => exact .ok _
  | some default =>
      rw [hdefault] at h
      cases default with
      | value value => exact ends_default field (ends_coerceInputValue value field.type h)
      | literal literal => exact ends_default field (ends_coerceInputLiteral literal field.type h)

end Coercion

/-! ## The depth that is needed -/

section Depth

/-- What holds of each item from some depth on holds of all of them from some depth on. -/
theorem exists_depth {α : Type} {p : ℕ → α → Prop} {items : List α}
    (h : ∀ item ∈ items, ∃ depth, ∀ deeper ≥ depth, p deeper item) :
    ∃ depth, ∀ deeper ≥ depth, ∀ item ∈ items, p deeper item := by
  induction items with
  | nil => exact ⟨0, fun _ _ _ hmem => absurd hmem List.not_mem_nil⟩
  | cons item rest ih =>
      rw [List.forall_mem_cons] at h
      obtain ⟨depth, hdepth⟩ := h.1
      obtain ⟨depth', hdepth'⟩ := ih h.2
      refine ⟨max depth depth', fun deeper hdeeper => List.forall_mem_cons.mpr ⟨?_, ?_⟩⟩
      · exact hdepth deeper (Nat.le_trans (Nat.le_max_left depth depth') hdeeper)
      · exact hdepth' deeper (Nat.le_trans (Nat.le_max_right depth depth') hdeeper)

variable {types : InputTypes floats Custom}

/-- From a field that reaches no cycle, the coercion of default values ends. -/
theorem exists_depth_of_grounded {key : FieldKey}
    (h : CycleSearch.Grounded (defaultEdges types (.given none)) key) :
    ∃ depth, ∀ deeper ≥ depth, DefaultEnds types (coerceDefaultValue types deeper) key := by
  induction h with
  | intro key _ ih =>
      have htargets : ∀ target ∈ leftOutOfDefault types (.given none) key,
          ∃ depth, ∀ deeper ≥ depth,
            DefaultEnds types (coerceDefaultValue types deeper) target := by
        intro target hmem
        cases hdefault : types.defaultOf target with
        | some default =>
            refine ih target ?_
            rw [edge_defaultEdges]
            exact ⟨hmem, by rw [hdefault]; rfl⟩
        | none =>
            refine ⟨1, fun deeper hdeeper => ?_⟩
            obtain ⟨depth, rfl⟩ := Nat.exists_eq_add_of_le' hdeeper
            refine defaultEnds_succ fun other hother => ?_
            rw [leftOutOfDefault, hdefault] at hother
            cases hother
      obtain ⟨depth, hdepth⟩ := exists_depth htargets
      refine ⟨depth + 1, fun deeper hdeeper => ?_⟩
      obtain ⟨more, rfl⟩ := Nat.exists_eq_add_of_le' hdeeper
      exact defaultEnds_succ (hdepth (more + depth) (Nat.le_add_left _ _))

/-- The coercion of any value or literal ends from some depth of default values on. -/
def CoercionEnds (types : InputTypes floats Custom) : Prop :=
  ∃ depth, ∀ deeper ≥ depth, ∀ type,
    (∀ value, Ends (coerceInputValue types (coerceDefaultValue types deeper) value type)) ∧
    ∀ variableValues literal, Ends (coerceInputLiteral types variableValues
      (coerceDefaultValue types deeper) literal type)

/-- Without a cycle of default values all coercion ends. -/
theorem coercionEnds_of_acyclic {schema : InputSchema floats Custom}
    (h : ¬∃ key, Relation.TransGen (DefaultReaches schema.toInputTypes (.given none)) key key) :
    CoercionEnds schema.toInputTypes := by
  have hgrounded : ∀ key, CycleSearch.Grounded
      (defaultEdges schema.toInputTypes (.given none)) key := by
    refine CycleSearch.grounded_of_acyclic (fun _ _ _ => InputSchema.mem_fieldKeys_of_edge)
      (fun _ => InputSchema.mem_fieldKeys_of_ne_nil) fun key => ?_
    rw [edge_defaultEdges]
    exact not_exists.mp h key
  obtain ⟨depth, hdepth⟩ : ∃ depth, ∀ deeper ≥ depth, ∀ key ∈ schema.fieldKeys,
      DefaultEnds schema.toInputTypes (coerceDefaultValue schema.toInputTypes deeper) key :=
    exists_depth fun key _ => exists_depth_of_grounded (hgrounded key)
  have hall : ∀ deeper ≥ depth, ∀ key,
      DefaultEnds schema.toInputTypes (coerceDefaultValue schema.toInputTypes deeper) key :=
    fun deeper hdeeper key field hfield =>
      hdepth deeper hdeeper key (InputSchema.mem_fieldKeys hfield) field hfield
  refine ⟨depth, fun deeper hdeeper type => ⟨fun value => ?_, fun variableValues literal => ?_⟩⟩
  · have hvalue : ∀ key ∈ leftOutOfValue schema.toInputTypes (.given none)
        type.getNamedType value, DefaultEnds schema.toInputTypes
          (coerceDefaultValue schema.toInputTypes deeper) key :=
      fun key _ => hall deeper hdeeper key
    exact ends_coerceInputValue value type hvalue
  · exact ends_coerceInputLiteral literal type fun key _ => hall deeper hdeeper key

end Depth

/-! ## Both readings -/

section Readings

variable {types : InputTypes floats Custom} {variableValues : Variables floats}

theorem given_of_find_none {entries : List (Text × HostValue floats)} {name : Text}
    (h : Dict.find name entries = none) : given entries name = none := by
  rw [given, definedEntries]
  induction entries with
  | nil => rfl
  | cons entry rest ih =>
      obtain ⟨other, found⟩ := entry
      rw [Dict.find] at h
      by_cases heq : other = name
      · rw [if_pos heq] at h
        cases h
      · rw [if_neg heq] at h
        rw [List.filter_cons]
        split
        · rw [Dict.find, if_neg heq]
          exact ih h
        · exact ih h

theorem given_of_find {entries : List (Text × HostValue floats)} {name : Text}
    {value : HostValue floats} (h : Dict.find name entries = some value)
    (hdefined : value.isUndefined = false) : given entries name = some value := by
  rw [given, definedEntries]
  induction entries with
  | nil => cases h
  | cons entry rest ih =>
      obtain ⟨other, found⟩ := entry
      rw [Dict.find] at h
      by_cases heq : other = name
      · rw [if_pos heq] at h
        obtain rfl := Option.some.inj h
        rw [List.filter_cons_of_pos (by rw [hdefined]; rfl), Dict.find, if_pos heq]
      · rw [if_neg heq] at h
        rw [List.filter_cons]
        split
        · rw [Dict.find, if_neg heq]
          exact ih h
        · exact ih h

/-- `Undefined` leaves nothing out itself. -/
theorem leftOutOfValue_undefined {reading : Reading floats} {inputObj : Text}
    {value : HostValue floats} (h : value.isUndefined = true) :
    leftOutOfValue types reading inputObj value = [] := by
  cases value with
  | undefined => simp [leftOutOfValue]
  | _ => cases h

/-- A value leaves out at least what is not there by name. -/
theorem leftOutOfValue_given {key : FieldKey} :
    ∀ (inputObj : Text) (value : HostValue floats),
      key ∈ leftOutOfValue types .named inputObj value →
        key ∈ leftOutOfValue types (.given variableValues) inputObj value
  | inputObj, .iterable items => by
      intro hkey
      rw [leftOutOfValue] at hkey ⊢
      obtain ⟨item, hmem, hitem⟩ := mem_leftOutOfItems.mp hkey
      have hlt := List.sizeOf_lt_of_mem hmem
      exact mem_leftOutOfItems.mpr ⟨item, hmem, leftOutOfValue_given inputObj item hitem⟩
  | inputObj, .mapping true entries => by
      intro hkey
      rw [leftOutOfValue, leftOutOfEntries_eq] at hkey ⊢
      obtain ⟨fieldDef, hmem, hfield⟩ := List.mem_flatMap.mp hkey
      refine List.mem_flatMap.mpr ⟨fieldDef, hmem, ?_⟩
      have hnamed : (Reading.named : Reading floats).entry entries fieldDef.1 =
        Dict.find fieldDef.1 entries := rfl
      have hgivens : (Reading.given variableValues).entry entries fieldDef.1 =
        given entries fieldDef.1 := rfl
      rw [leftOutAt, hnamed] at hfield
      rw [leftOutAt, hgivens]
      cases hfind : Dict.find fieldDef.1 entries with
      | none =>
          rw [hfind] at hfield
          rw [given_of_find_none hfind]
          exact hfield
      | some value =>
          simp only [hfind] at hfield
          cases hundefined : value.isUndefined with
          | true =>
              rw [leftOutOfValue_undefined hundefined] at hfield
              cases hfield
          | false =>
              have hlt := sizeOf_find_lt hfind
              rw [given_of_find hfind hundefined]
              exact leftOutOfValue_given _ value hfield
  | _, .mapping false _ | _, .none | _, .undefined | _, .bool _ | _, .int _ | _, .float _
  | _, .str _ | _, .object _ => by
      intro hkey
      rw [leftOutOfValue.eq_def] at hkey
      cases hkey
termination_by _ value => sizeOf value

theorem leftOutOfLiteral_given {key : FieldKey} :
    ∀ (inputObj : Text) (literal : ValueNode),
      key ∈ leftOutOfLiteral types .named inputObj literal →
        key ∈ leftOutOfLiteral types (.given variableValues) inputObj literal
  | inputObj, .list values _ => by
      intro hkey
      rw [leftOutOfLiteral] at hkey ⊢
      obtain ⟨value, hmem, hvalue⟩ := mem_leftOutOfItemLiterals.mp hkey
      have hlt := List.sizeOf_lt_of_mem hmem
      exact mem_leftOutOfItemLiterals.mpr
        ⟨value, hmem, leftOutOfLiteral_given inputObj value hvalue⟩
  | inputObj, .object nodes loc => by
      intro hkey
      rw [leftOutOfLiteral, leftOutOfNodes_eq] at hkey ⊢
      obtain ⟨fieldDef, hmem, hfield⟩ := List.mem_flatMap.mp hkey
      refine List.mem_flatMap.mpr ⟨fieldDef, hmem, ?_⟩
      have hnamed : (Reading.named : Reading floats).node (fieldNodes nodes) fieldDef.1 =
        Dict.find fieldDef.1 (fieldNodes nodes) := rfl
      have hgivens : (Reading.given variableValues).node (fieldNodes nodes) fieldDef.1 =
        (Dict.find fieldDef.1 (fieldNodes nodes)).filter
          fun node => !isMissingVariable variableValues node := rfl
      rw [leftOutAtNode, hnamed] at hfield
      rw [leftOutAtNode, hgivens]
      cases hfind : Dict.find fieldDef.1 (fieldNodes nodes) with
      | none =>
          rw [hfind] at hfield
          exact hfield
      | some literal =>
          simp only [hfind] at hfield
          cases hmissing : isMissingVariable variableValues literal with
          | true =>
              cases literal with
              | «variable» node =>
                  rw [leftOutOfLiteral.eq_def] at hfield
                  cases hfield
              | _ => cases hmissing
          | false =>
              have hlt := sizeOf_find_lt hfind
              have hfields := sizeOf_fieldNodes_lt nodes
              rw [Option.filter_some_pos (by rw [hmissing]; rfl)]
              exact leftOutOfLiteral_given _ literal hfield
  | _, .variable _ | _, .int _ _ | _, .float _ _ | _, .string _ | _, .boolean _ _ | _, .null _
  | _, .enum _ _ => by
      intro hkey
      rw [leftOutOfLiteral.eq_def] at hkey
      cases hkey
termination_by _ literal => sizeOf literal

/-- A default value that reaches another one by name reaches it. -/
theorem DefaultReaches.given {key target : FieldKey} (h : DefaultReaches types .named key target) :
    DefaultReaches types (.given variableValues) key target := by
  obtain ⟨hmem, hdefault⟩ := h
  refine ⟨?_, hdefault⟩
  unfold leftOutOfDefault at hmem ⊢
  split
  · rename_i hnone
    rw [hnone] at hmem
    exact hmem
  · rename_i fieldType value hsome
    rw [hsome] at hmem
    exact leftOutOfValue_given fieldType value hmem
  · rename_i fieldType literal hsome
    rw [hsome] at hmem
    exact leftOutOfLiteral_given fieldType literal hmem

end Readings

/-! ## Main result -/

section Main

/-- Default values that reach themselves, where an entry that is `Undefined` is left out. -/
def IsCyclic (schema : InputSchema floats Custom) (reading : Reading floats) : Prop :=
  ∃ key, Relation.TransGen (DefaultReaches schema.toInputTypes reading) key key

/-- The validator reports an error exactly if a default value reaches itself, and if it does
not report any, then all coercion ends. -/
def CyclesCaught (schema : InputSchema floats Custom) (depth : ℕ) : Prop :=
  ∃ errors, InputObjectDefaultValueCircularRefsValidator.validate schema depth = some errors ∧
    (errors ≠ [] ↔ IsCyclic schema (.given none)) ∧
    (errors = [] → CoercionEnds schema.toInputTypes)

/-- Cycles are caught exactly if not every cycle passes through an entry that is there by
name without having a value. -/
theorem cyclesCaught_iff (schema : InputSchema floats Custom) (depth : ℕ)
    (hdepth : schema.fieldKeys.length < depth) :
    CyclesCaught schema depth ↔ (IsCyclic schema (.given none) → IsCyclic schema .named) := by
  obtain ⟨errors, hvalidate, hreports⟩ :=
    InputObjectDefaultValueCircularRefsValidator.validate_reports schema depth hdepth
  have hgiven : IsCyclic schema .named → IsCyclic schema (.given none) := by
    rintro ⟨key, hcycle⟩
    exact ⟨key, hcycle.lift id fun _ _ h => h.given⟩
  constructor
  · rintro ⟨errors', hvalidate', hcaught, -⟩ hcyclic
    obtain rfl : errors = errors' := Option.some.inj (hvalidate.symm.trans hvalidate')
    exact hreports.mp (hcaught.mpr hcyclic)
  · intro h
    have hcaught : errors ≠ [] ↔ IsCyclic schema (.given none) :=
      hreports.trans ⟨hgiven, h⟩
    refine ⟨errors, hvalidate, hcaught, fun hempty => coercionEnds_of_acyclic fun hcyclic => ?_⟩
    exact hcaught.mpr hcyclic hempty

/-- The field of `input Filter { also: Filter }`, with a default value. -/
def alsoField (default : HostValue integralFloats) : InputField integralFloats where
  type := .named (str "Filter")
  default := some (.value default)

def filterSchema (default : HostValue integralFloats) : InputSchema integralFloats Empty where
  named name :=
    if name = str "Filter" then
      .inputObject (Dict.empty.set (str "also") (alsoField default)) false
    else .scalar .string
  inputObjects := [str "Filter"]
  mem_inputObjects := by
    intro name fields isOneOf h
    split at h
    · rename_i hname
      exact List.mem_singleton.mpr hname
    · cases h

theorem cyclesCaught_iff_filter :
    CyclesCaught (filterSchema (.mapping true [(str "also", .none)])) 2 ↔
      (IsCyclic (filterSchema (.mapping true [(str "also", .none)])) (.given none) →
        IsCyclic (filterSchema (.mapping true [(str "also", .none)])) .named) :=
  cyclesCaught_iff _ 2 (by decide +kernel)

/-- The default value `{"also": Undefined}` leaves the field out that it belongs to. -/
abbrev noFilter : HostValue integralFloats := .mapping true [(str "also", .undefined)]

theorem filterSchema_named (default : HostValue integralFloats) :
    (filterSchema default).named (str "Filter") =
      .inputObject (Dict.empty.set (str "also") (alsoField default)) false := rfl

theorem leftOut_noFilter (reading : Reading integralFloats) :
    leftOutOfValue (filterSchema noFilter).toInputTypes reading (str "Filter") noFilter =
      leftOutAt (filterSchema noFilter).toInputTypes reading (str "Filter")
        [(str "also", .undefined)] (str "also", alsoField noFilter) :=
  (leftOutOfValue_object (filterSchema_named noFilter) _).trans (List.append_nil _)

/-- By name the field is there, so the validator does not find the cycle. -/
theorem validate_noFilter :
    InputObjectDefaultValueCircularRefsValidator.validate (filterSchema noFilter) 2 =
      some [] := by
  have hleftOut : leftOutOfValue (filterSchema noFilter).toInputTypes .named (str "Filter")
      noFilter = [] := by
    rw [leftOut_noFilter]
    exact leftOutOfValue_undefined rfl
  have hdefault : (filterSchema noFilter).defaultOf (str "Filter", str "also") =
      some (str "Filter", .value noFilter) := rfl
  have hkeys : ((filterSchema noFilter).inputObjects.flatMap fun inputObj =>
      ((filterSchema noFilter).inputFields inputObj).keys.map
        fun fieldName => (inputObj, fieldName)) = [(str "Filter", str "also")] := rfl
  rw [InputObjectDefaultValueCircularRefsValidator.validate,
    InputObjectDefaultValueCircularRefsValidator.calls_eq, hkeys,
    InputObjectDefaultValueCircularRefsValidator.foldlM_single,
    InputObjectDefaultValueCircularRefsValidator.detectKey, hdefault]
  simp only [InputObjectDefaultValueCircularRefsValidator.visitField,
    InputObjectDefaultValueCircularRefsValidator.detectValue_eq, hleftOut]
  rfl

theorem coerce_leftOut {coerceDefault : DefaultCoercion integralFloats}
    (h : coerceDefault (alsoField noFilter) = .error .tooDeep)
    {entries : List (Text × HostValue integralFloats)} (hentries : definedEntries entries = []) :
    coerceInputValue (filterSchema noFilter).toInputTypes coerceDefault (.mapping true entries)
      (.named (str "Filter")) = .error .tooDeep := by
  have habsent : given entries (str "also") = none := by rw [given, hentries]; rfl
  have hitems : (Dict.empty.set (str "also") (alsoField noFilter)).items =
      [(str "also", alsoField noFilter)] := rfl
  have hrequired : (alsoField noFilter).isRequired = false := rfl
  rw [coerceInputValue_object (filterSchema_named noFilter), hasUnknown, hentries, List.any_nil,
    hitems,
    coerceFields_absent habsent, hrequired, h]
  rfl

/-- The coercion of the default value never ends. -/
theorem coerceDefault_noFilter (depth : ℕ) :
    coerceDefaultValue (filterSchema noFilter).toInputTypes depth (alsoField noFilter) =
      .error .tooDeep := by
  induction depth with
  | zero => rfl
  | succ depth ih =>
      have hvalue : coerceInputValue (filterSchema noFilter).toInputTypes
          (coerceDefaultValue (filterSchema noFilter).toInputTypes depth) noFilter
          (.named (str "Filter")) = .error .tooDeep :=
        coerce_leftOut ih rfl
      have hdefault : (alsoField noFilter).default = some (.value noFilter) := rfl
      have htype : (alsoField noFilter).type = .named (str "Filter") := rfl
      rw [coerceDefaultValue, hdefault, htype]
      simp only [hvalue]

theorem not_cyclesCaught_noFilter :
    InputObjectDefaultValueCircularRefsValidator.validate (filterSchema noFilter) 2 = some [] ∧
      IsCyclic (filterSchema noFilter) (.given none) ∧
      (∀ depth, coerceInputValue (filterSchema noFilter).toInputTypes
        (coerceDefaultValue (filterSchema noFilter).toInputTypes depth)
        (.mapping true []) (.named (str "Filter")) = .error .tooDeep) ∧
      ¬CyclesCaught (filterSchema noFilter) 2 := by
  have hmem : (str "Filter", str "also") ∈ leftOutOfDefault
      (filterSchema noFilter).toInputTypes (.given none) (str "Filter", str "also") := by
    change _ ∈ leftOutOfValue _ _ (str "Filter") noFilter
    rw [leftOut_noFilter]
    exact List.mem_singleton_self _
  have hcyclic : IsCyclic (filterSchema noFilter) (.given none) :=
    ⟨(str "Filter", str "also"), .single ⟨hmem, rfl⟩⟩
  refine ⟨validate_noFilter, hcyclic, fun depth => coerce_leftOut (coerceDefault_noFilter depth)
    rfl, ?_⟩
  rintro ⟨errors, herrors, hcaught, -⟩
  obtain rfl : [] = errors := Option.some.inj (validate_noFilter.symm.trans herrors)
  exact hcaught.mpr hcyclic rfl

end Main

end GraphqlCore.ValueLiterals
