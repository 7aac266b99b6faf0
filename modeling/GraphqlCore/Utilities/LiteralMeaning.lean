import GraphqlCore.Utilities.LiteralRejection

/-!
# Literals keep the meaning of values

A value that is coerced has a literal, and the literal is coerced to the same value.  The one
exception are OneOf types with a default value: a field that is given as null may be replaced
by the default value of another field with the same out name, which only the coercion of
values accepts.
-/

namespace GraphqlCore.ValueLiterals

open Language

variable {floats : FloatFormat}

/-! ## Literals of leaf types -/

section Leaves

variable {value coerced : HostValue floats}

/-- A literal that is neither a variable, nor null, nor a list. -/
def isPlain : ValueNode → Bool
  | .variable _ => false
  | .null _ => false
  | .list _ _ => false
  | _ => true

theorem int_meaning (h : SpecifiedScalar.coerceInt value = some coerced) :
    ∃ literal, SpecifiedScalar.intValueToLiteral value = some literal ∧ isPlain literal = true ∧
      SpecifiedScalar.parseIntLiteral literal = some coerced := by
  obtain ⟨number, hnumber, rfl⟩ := Option.map_eq_some_iff.mp h
  obtain ⟨-, hrange⟩ := Option.filter_eq_some_iff.mp hnumber
  refine ⟨.int (intText number) none, Option.map_eq_some_iff.mpr ⟨number, hnumber, rfl⟩, rfl, ?_⟩
  rw [SpecifiedScalar.parseIntLiteral, readInt_intText, Option.filter_some, hrange]
  rfl

theorem float_meaning (h : SpecifiedScalar.coerceFloat value = some coerced) :
    ∃ literal, SpecifiedScalar.floatValueToLiteral value = some literal ∧
      isPlain literal = true ∧ SpecifiedScalar.parseFloatLiteral literal = some coerced := by
  cases value with
  | float value =>
      rw [SpecifiedScalar.coerceFloat, Option.ite_none_right_eq_some] at h
      obtain ⟨hfinite, hcoerced⟩ := h
      have hread := floats.read_text value hfinite
      rw [SpecifiedScalar.floatValueToLiteral, defaultScalarValueToLiteral, if_pos hfinite]
      cases hinteger : isIntegerString (floats.text value) with
      | true =>
          refine ⟨.int (floats.text value) none, by simp [hinteger], rfl, ?_⟩
          rw [SpecifiedScalar.parseFloatLiteral, hread, ← hcoerced]
          rfl
      | false =>
          refine ⟨.float (floats.text value) none, by simp [hinteger], rfl, ?_⟩
          rw [SpecifiedScalar.parseFloatLiteral, hread, ← hcoerced]
          rfl
  | int value =>
      obtain ⟨number, hnumber, rfl⟩ := Option.map_eq_some_iff.mp h
      obtain ⟨hfloat, -⟩ := Option.filter_eq_some_iff.mp hnumber
      refine ⟨.int (intText value) none, rfl, rfl, ?_⟩
      rw [SpecifiedScalar.parseFloatLiteral, floats.read_intText value number hfloat]
      rfl
  | _ => cases h

theorem id_meaning (h : SpecifiedScalar.coerceId value = some coerced) :
    ∃ literal, SpecifiedScalar.idValueToLiteral value = some literal ∧ isPlain literal = true ∧
      SpecifiedScalar.parseIdLiteral literal = some coerced := by
  have hnumber : ∀ text, coerceIdFromNumber value = some text → coerced = .str text →
      ∃ literal, (coerceIdFromNumber value).map (fun text => ValueNode.int text none) =
        some literal ∧ isPlain literal = true ∧
          SpecifiedScalar.parseIdLiteral literal = some coerced := by
    rintro text htext rfl
    exact ⟨.int text none, by rw [htext, Option.map_some], rfl, rfl⟩
  cases value with
  | str text =>
      rw [SpecifiedScalar.idValueToLiteral]
      cases isIntegerString text with
      | true => exact ⟨.int text none, rfl, rfl, h⟩
      | false => exact ⟨.string { value := text, block := some false }, rfl, rfl, h⟩
  | _ =>
      simp only [SpecifiedScalar.coerceId, Option.map_eq_some_iff] at h
      obtain ⟨text, htext, rfl⟩ := h
      exact hnumber text htext rfl

/-- The literal of a value that a scalar coerces. -/
theorem scalar_meaning {scalar : SpecifiedScalar}
    (h : scalar.coerceInputValue value = some coerced) :
    ∃ literal, scalar.valueToLiteral value = some literal ∧ isPlain literal = true ∧
      scalar.coerceInputLiteral literal = some coerced := by
  cases scalar with
  | string =>
      cases value with
      | str text => exact ⟨_, rfl, rfl, h⟩
      | _ => nomatch h
  | int => exact int_meaning h
  | float => exact float_meaning h
  | boolean =>
      cases value with
      | bool value => exact ⟨_, rfl, rfl, h⟩
      | _ => nomatch h
  | id => exact id_meaning h

theorem enum_meaning {values : Dict Text (HostValue floats)}
    (h : enumCoerceInputValue values value = some coerced) :
    ∃ literal, enumValueToLiteral values value = some literal ∧ isPlain literal = true ∧
      enumCoerceInputLiteral values literal = some coerced := by
  cases value with
  | str text =>
      have hget : values.get text = some coerced := h
      refine ⟨.enum text none, ?_, rfl, h⟩
      rw [enumValueToLiteral, hget]
      rfl
  | _ => cases h

end Leaves

/-! ## Literals at each position -/

section Positions

variable {Custom : Type} {types : InputTypes floats Custom}
  {coerceDefault : DefaultCoercion floats} {variableValues : Variables floats}
  {literal : ValueNode} {type : GraphQLType} {name : Text}

theorem coerceInputLiteral_null (loc : Option Location) :
    coerceInputLiteral types variableValues coerceDefault (.null loc) type =
      if isNonNullType type then .error .undefined else .ok .none := by
  rw [coerceInputLiteral.eq_def]
  cases type <;> rfl

/-- A literal that is neither a variable nor null. -/
def isPresent : ValueNode → Bool
  | .variable _ => false
  | .null _ => false
  | _ => true

theorem isPresent_of_isPlain (h : isPlain literal = true) : isPresent literal = true := by
  cases literal <;> first | rfl | nomatch h

theorem coerceInputLiteral_nonNull (hpresent : isPresent literal = true) :
    coerceInputLiteral types variableValues coerceDefault literal (.nonNull type) =
      coerceInputLiteral types variableValues coerceDefault literal type := by
  rw [coerceInputLiteral.eq_def]
  cases literal <;> first | rfl | nomatch hpresent

theorem coerceInputLiteral_list (values : List ValueNode) (loc : Option Location) :
    coerceInputLiteral types variableValues coerceDefault (.list values loc) (.list type) =
      .iterable <$> coerceItemNodes types variableValues coerceDefault values type := by
  rw [coerceInputLiteral.eq_def]
  simp

theorem coerceInputLiteral_single (hplain : isPlain literal = true) :
    coerceInputLiteral types variableValues coerceDefault literal (.list type) =
      (fun item => .iterable [item]) <$>
        coerceInputLiteral types variableValues coerceDefault literal type := by
  rw [coerceInputLiteral.eq_def]
  cases literal <;> first | exact Bool.noConfusion hplain | simp

theorem coerceInputLiteral_scalar {scalar : SpecifiedScalar}
    (hnamed : types.named name = .scalar scalar) (hpresent : isPresent literal = true) :
    coerceInputLiteral types variableValues coerceDefault literal (.named name) =
      finishLeaf (scalar.coerceInputLiteral literal) := by
  rw [coerceInputLiteral.eq_def]
  cases literal <;> first | exact Bool.noConfusion hpresent | simp [hnamed]

theorem coerceInputLiteral_enum {values : Dict Text (HostValue floats)}
    (hnamed : types.named name = .enum values) (hpresent : isPresent literal = true) :
    coerceInputLiteral types variableValues coerceDefault literal (.named name) =
      finishLeaf (enumCoerceInputLiteral values literal) := by
  rw [coerceInputLiteral.eq_def]
  cases literal <;> first | exact Bool.noConfusion hpresent | simp [hnamed]

theorem coerceInputLiteral_customScalar {custom : Custom}
    (hnamed : types.named name = .customScalar custom) (hpresent : isPresent literal = true) :
    coerceInputLiteral types variableValues coerceDefault literal (.named name) =
      finishLeaf (some (valueFromAstUntyped variableValues literal)) := by
  rw [coerceInputLiteral.eq_def]
  cases literal <;> first | exact Bool.noConfusion hpresent | simp [hnamed]

theorem coerceInputLiteral_variable (node : VariableNode) :
    coerceInputLiteral types variableValues coerceDefault (.variable node) type =
      if (variableValue variableValues node).isUndefined ||
        (variableValue variableValues node).isNone && isNonNullType type then .error .undefined
      else .ok (variableValue variableValues node) := by
  rw [coerceInputLiteral.eq_def]

theorem coerceInputLiteral_object {fieldDefs : Dict Text (InputField floats)} {isOneOf : Bool}
    (hnamed : types.named name = .inputObject fieldDefs isOneOf) (fields : List ObjectFieldNode)
    (loc : Option Location) :
    coerceInputLiteral types variableValues coerceDefault (.object fields loc) (.named name) =
      if (fieldNodes fields).any fun node => (fieldDefs.get node.1).isNone then .error .undefined
      else do
        let coercedDict ← coerceFieldNodes types variableValues coerceDefault (fieldNodes fields)
          fieldDefs.items []
        if isOneOf && !isOneOfLiteral fieldDefs (fieldNodes fields) coercedDict then
          .error .undefined
        else return types.outType name coercedDict := by
  rw [coerceInputLiteral.eq_def]
  simp [hnamed]

theorem coerceInputLiteral_noObject {fieldDefs : Dict Text (InputField floats)} {isOneOf : Bool}
    (hnamed : types.named name = .inputObject fieldDefs isOneOf)
    (hpresent : isPresent literal = true) (hobject : ∀ fields loc, literal ≠ .object fields loc) :
    coerceInputLiteral types variableValues coerceDefault literal (.named name) =
      .error .undefined := by
  rw [coerceInputLiteral.eq_def]
  cases literal <;> simp_all [isPresent]

end Positions

/-! ## Literals of values -/

/-- Null stands for a missing value, and a list only for an iterable. -/
structure StandsFor (literal : ValueNode) (value : HostValue floats) : Prop where
  missing : value.isMissing = true → literal = .null none
  present : value.isMissing = false → isPresent literal = true
  plain : value.isMissing = false → (∀ items, value ≠ .iterable items) → isPlain literal = true

/-- The value has a literal that is coerced to the same value. -/
def HasMeaning (types : InputTypes floats Empty) (coerceDefault : DefaultCoercion floats)
    (value : HostValue floats) (type : GraphQLType) (coerced : HostValue floats) : Prop :=
  ∃ literal, valueToLiteral types value type = some literal ∧ StandsFor literal value ∧
    coerceInputLiteral types none coerceDefault literal type = .ok coerced

section Values

variable {types : InputTypes floats Empty} {coerceDefault : DefaultCoercion floats}
  {value coerced : HostValue floats} {literal : ValueNode} {type : GraphQLType} {name : Text}

theorem StandsFor.of_plain (hmissing : value.isMissing = false) (h : isPlain literal = true) :
    StandsFor literal value where
  missing := fun hnone => Bool.noConfusion (hmissing.symm.trans hnone)
  present := fun _ => isPresent_of_isPlain h
  plain := fun _ _ => h

theorem StandsFor.isMissingVariable (h : StandsFor literal value)
    (variableValues : Variables floats) :
    isMissingVariable variableValues literal = false := by
  cases literal with
  | «variable» node =>
      cases hmissing : value.isMissing with
      | true => nomatch h.missing hmissing
      | false => nomatch h.present hmissing
  | _ => rfl

theorem items_meaning (items : List (HostValue floats)) (itemType : GraphQLType)
    (coercedList : List (HostValue floats))
    (h : coerceItems types coerceDefault items itemType = .ok coercedList)
    (ih : ∀ item ∈ items, ∀ coerced,
      coerceInputValue types coerceDefault item itemType = .ok coerced →
        HasMeaning types coerceDefault item itemType coerced) :
    ∃ values, itemsToLiterals types items itemType = some values ∧
      coerceItemNodes types none coerceDefault values itemType = .ok coercedList := by
  induction items generalizing coercedList with
  | nil =>
      rw [coerceItems] at h
      exact ⟨[], by rw [itemsToLiterals], by rw [coerceItemNodes, ← Except.ok.inj h]⟩
  | cons item rest ihRest =>
      obtain ⟨hitem, hrest⟩ := List.forall_mem_cons.mp ih
      rw [coerceItems] at h
      obtain ⟨coercedItem, hcoerced, h⟩ := bind_eq_ok.mp h
      obtain ⟨coercedRest, hcoercedRest, h⟩ := bind_eq_ok.mp h
      obtain ⟨literal, hliteral, hstands, hmeaning⟩ := hitem _ hcoerced
      obtain ⟨values, hvalues, hmeanings⟩ := ihRest _ hcoercedRest hrest
      refine ⟨literal :: values, by rw [itemsToLiterals, hliteral, hvalues]; rfl, ?_⟩
      rw [coerceItemNodes, hstands.isMissingVariable, Bool.and_false, if_neg Bool.noConfusion,
        hmeaning, hmeanings]
      exact h

/-! ### Fields of an object -/

/-- The names of the fields that are given, with their literals. -/
def literalPairs (types : InputTypes floats Empty) (entries : List (Text × HostValue floats))
    (fieldDefs : List (Text × InputField floats)) : List (Text × ValueNode) :=
  fieldDefs.filterMap fun fieldDef =>
    (given entries fieldDef.1).bind fun value =>
      (valueToLiteral types value fieldDef.2.type).map fun literal => (fieldDef.1, literal)

def nodePair (node : ObjectFieldNode) : Text × ValueNode := (node.name.value, node.value)

theorem map_nodePair (entries : List (Text × HostValue floats))
    (fieldDefs : List (Text × InputField floats)) (nodes : List ObjectFieldNode)
    (h : entriesToLiterals types entries fieldDefs = some nodes) :
    nodes.map nodePair = literalPairs types entries fieldDefs := by
  induction fieldDefs generalizing nodes with
  | nil =>
      rw [entriesToLiterals] at h
      rw [← Option.some.inj h]
      rfl
  | cons fieldDef rest ih =>
      obtain ⟨fieldName, field⟩ := fieldDef
      rw [entriesToLiterals] at h
      rw [literalPairs, List.filterMap_cons, ← literalPairs]
      split at h
      · rename_i hgiven
        rw [Option.ite_none_left_eq_some] at h
        rw [hgiven]
        exact ih nodes h.2
      · rename_i value hgiven
        obtain ⟨literal, hliteral, h⟩ := Option.bind_eq_some_iff.mp h
        obtain ⟨fields, hfields, h⟩ := Option.bind_eq_some_iff.mp h
        rw [← Option.some.inj h, List.map_cons, ih fields hfields, hgiven, Option.bind_some,
          hliteral]
        rfl

/-- The literal of a field that is given. -/
theorem mem_literalPairs {entries : List (Text × HostValue floats)}
    {fieldDefs : List (Text × InputField floats)} {fieldName : Text} :
    (fieldName, literal) ∈ literalPairs types entries fieldDefs ↔ ∃ field value,
      (fieldName, field) ∈ fieldDefs ∧ given entries fieldName = some value ∧
        valueToLiteral types value field.type = some literal := by
  simp only [literalPairs, List.mem_filterMap, Option.bind_eq_some_iff, Option.map_eq_some_iff,
    Prod.mk.injEq, Prod.exists]
  constructor
  · rintro ⟨_, field, hmem, value, hgiven, _, hliteral, rfl, rfl⟩
    exact ⟨field, value, hmem, hgiven, hliteral⟩
  · rintro ⟨field, value, hmem, hgiven, hliteral⟩
    exact ⟨fieldName, field, hmem, value, hgiven, literal, hliteral, rfl, rfl⟩

theorem keys_literalPairs (entries : List (Text × HostValue floats))
    (fieldDefs : List (Text × InputField floats)) :
    ((literalPairs types entries fieldDefs).map Prod.fst).Sublist (fieldDefs.map Prod.fst) := by
  induction fieldDefs with
  | nil => exact List.Sublist.refl _
  | cons fieldDef rest ih =>
      rw [literalPairs, List.filterMap_cons, ← literalPairs, List.map_cons]
      split
      · exact ih.cons _
      · rename_i pair hpair
        obtain ⟨value, -, hpair⟩ := Option.bind_eq_some_iff.mp hpair
        obtain ⟨literal, -, rfl⟩ := Option.map_eq_some_iff.mp hpair
        rw [List.map_cons]
        exact ih.cons_cons _

theorem find_literalPairs {entries : List (Text × HostValue floats)}
    {fieldDefs : List (Text × InputField floats)} (hnodup : (fieldDefs.map Prod.fst).Nodup)
    {fieldName : Text} {field : InputField floats} (hmem : (fieldName, field) ∈ fieldDefs) :
    Dict.find fieldName (literalPairs types entries fieldDefs) =
      (given entries fieldName).bind fun value => valueToLiteral types value field.type := by
  have hkeys : ((literalPairs types entries fieldDefs).map Prod.fst).Nodup :=
    (keys_literalPairs entries fieldDefs).nodup hnodup
  apply Option.ext
  intro literal
  rw [← Dict.mem_iff_find hkeys, mem_literalPairs, Option.bind_eq_some_iff]
  constructor
  · rintro ⟨field', value, hmem', hgiven, hliteral⟩
    have hfield : field' = field := by
      rw [Dict.mem_iff_find hnodup] at hmem hmem'
      exact Option.some.inj (hmem'.symm.trans hmem)
    exact ⟨value, hgiven, hfield ▸ hliteral⟩
  · rintro ⟨value, hgiven, hliteral⟩
    exact ⟨field, value, hmem, hgiven, hliteral⟩

theorem foldl_addFieldNode (nodes : List ObjectFieldNode) (pairs : List (Text × ValueNode))
    (hnodup : ((pairs ++ nodes.map nodePair).map Prod.fst).Nodup) :
    nodes.foldl addFieldNode pairs = pairs ++ nodes.map nodePair := by
  induction nodes generalizing pairs with
  | nil => simp
  | cons node rest ih =>
      have hnew : node.name.value ∉ pairs.map Prod.fst := by
        intro hmem
        rw [List.map_append, List.nodup_append] at hnodup
        exact hnodup.2.2 _ hmem _ (by simp [nodePair]) rfl
      rw [List.foldl_cons, addFieldNode, Dict.store_eq_append hnew, ih]
      · simp [nodePair]
      · simpa [nodePair] using hnodup

/-- The dictionary of field nodes with different names. -/
theorem fieldNodes_eq {nodes : List ObjectFieldNode}
    (hnodup : ((nodes.map nodePair).map Prod.fst).Nodup) :
    fieldNodes nodes = nodes.map nodePair :=
  foldl_addFieldNode nodes [] hnodup

/-- The fields are coerced from their literals as from their values. -/
theorem fields_meaning (entries : List (Text × HostValue floats)) (pairs : List (Text × ValueNode))
    (fieldDefs : List (Text × InputField floats))
    (coercedDict result : List (Text × HostValue floats))
    (h : coerceFields types coerceDefault entries fieldDefs coercedDict = .ok result)
    (hpairs : ∀ fieldDef ∈ fieldDefs, Dict.find fieldDef.1 pairs =
      (given entries fieldDef.1).bind fun value => valueToLiteral types value fieldDef.2.type)
    (ih : ∀ fieldDef ∈ fieldDefs, ∀ value, given entries fieldDef.1 = some value → ∀ coerced,
      coerceInputValue types coerceDefault value fieldDef.2.type = .ok coerced →
        HasMeaning types coerceDefault value fieldDef.2.type coerced) :
    coerceFieldNodes types none coerceDefault pairs fieldDefs coercedDict = .ok result := by
  induction fieldDefs generalizing coercedDict with
  | nil =>
      rw [coerceFields] at h
      rw [coerceFieldNodes, ← Except.ok.inj h]
  | cons fieldDef rest ihRest =>
      obtain ⟨fieldName, field⟩ := fieldDef
      obtain ⟨hpair, hpairsRest⟩ := List.forall_mem_cons.mp hpairs
      obtain ⟨hfirst, hrest⟩ := List.forall_mem_cons.mp ih
      rw [coerceFields] at h
      obtain ⟨coercedField, hfield, h⟩ := bind_eq_ok.mp h
      rw [coerceFieldNodes]
      refine bind_eq_ok.mpr ⟨coercedField, ?_, ihRest _ h hpairsRest hrest⟩
      split at hfield
      · rename_i hgiven
        rw [hgiven] at hpair
        split
        · exact hfield
        · rename_i valueNode hfind
          cases hpair.symm.trans hfind
      · rename_i value hgiven
        obtain ⟨coerced, hcoerced, rfl⟩ := map_eq_ok.mp hfield
        obtain ⟨literal, hliteral, hstands, hmeaning⟩ := hfirst value hgiven coerced hcoerced
        rw [hgiven, Option.bind_some, hliteral] at hpair
        split
        · rename_i hfind
          cases hpair.symm.trans hfind
        · rename_i valueNode hfind
          obtain rfl := Option.some.inj (hpair.symm.trans hfind)
          rw [hstands.isMissingVariable, if_neg Bool.noConfusion, hmeaning]
          rfl

/-! ### OneOf objects -/

/-- In a OneOf type no field with a default value has the out name of another field. -/
def NoReplacement (types : InputTypes floats Empty) : Prop :=
  ∀ name fields, types.named name = .inputObject fields true →
    ∀ fieldDef ∈ fields.items, ∀ fieldDef' ∈ fields.items, fieldDef.1 ≠ fieldDef'.1 →
      fieldDef.2.outNameOr fieldDef.1 = fieldDef'.2.outNameOr fieldDef'.1 →
        fieldDef'.2.default = none ∧ fieldDef'.2.defaultValue.isUndefined = true

theorem coerceDefaultValue_of_none (depth : ℕ) {field : InputField floats}
    (hdefault : field.default = none) (hvalue : field.defaultValue.isUndefined = true)
    (default : HostValue floats) : coerceDefaultValue types depth field ≠ .ok (some default) := by
  cases depth with
  | zero => exact fun h => by cases h
  | succ depth =>
      rw [coerceDefaultValue, hdefault, hvalue]
      exact fun h => by cases h

/-- A null entry stays if no other entry takes its place. -/
theorem find_nullsOf {entries : List (Text × HostValue floats)} {outName : Text}
    (fields : List (Text × InputField floats)) (nulls : List (Text × Bool))
    (hkeeps : ∀ fieldDef ∈ fields, fieldDef.2.outNameOr fieldDef.1 = outName →
      nullOf types coerceDefault entries fieldDef ≠ some false)
    (hnull : Dict.find outName nulls = some true ∨ ∃ fieldDef ∈ fields,
      fieldDef.2.outNameOr fieldDef.1 = outName ∧
        nullOf types coerceDefault entries fieldDef = some true) :
    Dict.find outName (nullsOf types coerceDefault entries fields nulls) = some true := by
  induction fields generalizing nulls with
  | nil =>
      rcases hnull with hnull | ⟨fieldDef, hmem, -⟩
      · exact hnull
      · cases hmem
  | cons fieldDef rest ih =>
      obtain ⟨hfirst, hrest⟩ := List.forall_mem_cons.mp hkeeps
      rw [nullsOf, List.foldl_cons, ← nullsOf]
      apply ih _ hrest
      rw [List.exists_mem_cons_iff] at hnull
      cases hfield : nullOf types coerceDefault entries fieldDef with
      | none =>
          rcases hnull with hnull | ⟨-, hnull⟩ | hnull
          · exact Or.inl hnull
          · rw [hfield] at hnull
            cases hnull
          · exact Or.inr hnull
      | some null =>
          rw [Dict.find_store]
          by_cases hname : outName = fieldDef.2.outNameOr fieldDef.1
          · cases null with
            | true => exact Or.inl (if_pos hname)
            | false => exact absurd hfield (hfirst hname.symm)
          · rw [if_neg hname]
            rcases hnull with hnull | ⟨hname', -⟩ | hnull
            · exact Or.inl hnull
            · exact absurd hname'.symm hname
            · exact Or.inr hnull

/-- The one field that is given is not null, if its entry is not. -/
theorem given_not_missing {entries : List (Text × HostValue floats)}
    {fields : List (Text × InputField floats)} {fieldName : Text} {field : InputField floats}
    (hmem : (fieldName, field) ∈ fields) (hgiven : given entries fieldName = some value)
    (hothers : ∀ fieldDef ∈ fields, fieldDef.1 ≠ fieldName → given entries fieldDef.1 = none)
    (hnodup : (fields.map Prod.fst).Nodup)
    (hreplace : ∀ fieldDef ∈ fields, fieldName ≠ fieldDef.1 →
      field.outNameOr fieldName = fieldDef.2.outNameOr fieldDef.1 →
        ∀ default, coerceDefault fieldDef.2 ≠ .ok (some default))
    (hone : hasOneEntry types coerceDefault entries fields)
    (hnull : isNullAt types value field.type = true) : False := by
  obtain ⟨-, outName, hnulls⟩ := hone
  have hown : nullOf types coerceDefault entries (fieldName, field) = some true := by
    rw [nullOf, hgiven]
    exact congrArg some hnull
  have hfind := find_nullsOf fields [] ?_ (Or.inr ⟨_, hmem, rfl, hown⟩)
  · rw [hnulls, Dict.find] at hfind
    split at hfind
    · cases hfind
    · cases hfind
  · rintro ⟨fieldName', field'⟩ hmem' hname hfalse
    by_cases heq : fieldName' = fieldName
    · subst heq
      have hfield : field' = field := by
        rw [Dict.mem_iff_find hnodup] at hmem hmem'
        exact Option.some.inj (hmem'.symm.trans hmem)
      rw [hfield, hown] at hfalse
      cases hfalse
    · rw [nullOf, hothers _ hmem' heq] at hfalse
      cases hdefault : coerceDefault field' with
      | error stop => simp [hdefault] at hfalse
      | ok default =>
          cases default with
          | none => simp [hdefault] at hfalse
          | some default => exact hreplace _ hmem' (Ne.symm heq) hname.symm default hdefault

theorem isNullAt_of_isMissing (hmissing : value.isMissing = true) :
    isNullAt types value type = true := by
  induction type with
  | named name => rw [isNullAt, hmissing, Bool.true_or]
  | list itemType => exact hmissing
  | nonNull ofType ih => exact ih

theorem eq_singleton_of_keys {pairs : List (Text × ValueNode)} {key : Text}
    (hnodup : (pairs.map Prod.fst).Nodup) (hkeys : ∀ pair ∈ pairs, pair.1 = key)
    (hmem : (key, literal) ∈ pairs) : pairs = [(key, literal)] := by
  match pairs with
  | [] => nomatch hmem
  | [pair] => rw [List.mem_singleton.mp hmem]
  | first :: second :: rest =>
      have hsame : first.1 = second.1 :=
        (hkeys first (by simp)).trans (hkeys second (by simp)).symm
      rw [List.map_cons, List.map_cons, List.nodup_cons] at hnodup
      exact absurd List.mem_cons_self (hsame ▸ hnodup.1)

/-- The literal of a OneOf object is one of its type. -/
theorem oneOf_meaning {entries : List (Text × HostValue floats)}
    {fields : Dict Text (InputField floats)} {coercedDict : List (Text × HostValue floats)}
    (hknown : hasUnknown fields entries = false)
    (hcoerce : coerceFields types coerceDefault entries fields.items [] = .ok coercedDict)
    (hreplace : ∀ fieldDef ∈ fields.items, ∀ fieldDef' ∈ fields.items, fieldDef.1 ≠ fieldDef'.1 →
      fieldDef.2.outNameOr fieldDef.1 = fieldDef'.2.outNameOr fieldDef'.1 →
        ∀ default, coerceDefault fieldDef'.2 ≠ .ok (some default))
    (hstands : ∀ fieldDef ∈ fields.items, ∀ value, given entries fieldDef.1 = some value →
      ∃ literal, valueToLiteral types value fieldDef.2.type = some literal ∧
        StandsFor literal value)
    (hone : isOneOfValue (definedEntries entries).length coercedDict = true) :
    isOneOfLiteral fields (literalPairs types entries fields.items) coercedDict = true := by
  have hentry := (isOneOfValue_iff hcoerce).mp hone
  obtain ⟨⟨fieldName, value⟩, hdefined⟩ := List.length_eq_one_iff.mp hentry.1
  have hgiven : ∀ name, given entries name = if fieldName = name then some value else none := by
    intro name
    rw [given, hdefined]
    rfl
  have hfield : ∃ field, fields.get fieldName = some field := by
    have hsome : (fields.get fieldName).isNone = false := by
      simpa [hasUnknown, hdefined] using hknown
    exact Option.isSome_iff_exists.mp (by simpa using hsome)
  obtain ⟨field, hfield⟩ := hfield
  have hmem : (fieldName, field) ∈ fields.items := Dict.mem_items_iff.mpr hfield
  have hown : given entries fieldName = some value := by rw [hgiven, if_pos rfl]
  have hothers : ∀ name, name ≠ fieldName → given entries name = none := by
    intro name hne
    rw [hgiven, if_neg (Ne.symm hne)]
  have hmissing : value.isMissing = false := by
    by_contra hmissing
    exact given_not_missing hmem hown (fun fieldDef _ => hothers fieldDef.1)
      fields.nodup_keys
      (fun fieldDef hmem' => hreplace _ hmem fieldDef hmem') hentry
      (isNullAt_of_isMissing (eq_true_of_ne_false hmissing))
  obtain ⟨literal, hliteral, hstand⟩ := hstands _ hmem value hown
  have hpairs : literalPairs types entries fields.items = [(fieldName, literal)] := by
    refine eq_singleton_of_keys ((keys_literalPairs entries fields.items).nodup fields.nodup_keys)
      ?_ (mem_literalPairs.mpr ⟨field, value, hmem, hown, hliteral⟩)
    rintro ⟨name, literal'⟩ hpair
    obtain ⟨_, value', -, hvalue', -⟩ := mem_literalPairs.mp hpair
    by_contra hne
    rw [hothers name hne] at hvalue'
    cases hvalue'
  rcases coercedDict with _ | ⟨⟨outName, coerced⟩, _ | ⟨_, _⟩⟩
  · simp [isOneOfValue] at hone
  · have hpresent := hstand.present hmissing
    have hnull : coerced.isNone = false := by
      simpa [isOneOfValue, hdefined] using hone
    rw [hpairs, isOneOfLiteral, hfield]
    · simp [hnull]
    · rintro loc rfl
      cases hpresent
  · simp [isOneOfValue] at hone

/-- Where the fields are coerced, those that are given are, and no other is required. -/
theorem coerced_fields {entries : List (Text × HostValue floats)}
    (fieldDefs : List (Text × InputField floats))
    (coercedDict result : List (Text × HostValue floats))
    (h : coerceFields types coerceDefault entries fieldDefs coercedDict = .ok result) :
    ∀ fieldDef ∈ fieldDefs, (given entries fieldDef.1 = none → fieldDef.2.isRequired = false) ∧
      ∀ value, given entries fieldDef.1 = some value →
        ∃ coerced, coerceInputValue types coerceDefault value fieldDef.2.type = .ok coerced := by
  induction fieldDefs generalizing coercedDict with
  | nil => exact fun fieldDef hmem => by cases hmem
  | cons fieldDef rest ih =>
      obtain ⟨fieldName, field⟩ := fieldDef
      rw [coerceFields] at h
      obtain ⟨coercedField, hfield, h⟩ := bind_eq_ok.mp h
      refine List.forall_mem_cons.mpr ⟨?_, ih _ h⟩
      split at hfield
      · rename_i hgiven
        refine ⟨fun _ => ?_, fun value hvalue => ?_⟩
        · cases hrequired : field.isRequired with
          | true => simp [hrequired] at hfield
          | false => rfl
        · cases hgiven.symm.trans hvalue
      · rename_i value hgiven
        refine ⟨fun hnone => ?_, fun value' hvalue => ?_⟩
        · cases hgiven.symm.trans hnone
        · obtain ⟨coerced, hcoerced, -⟩ := map_eq_ok.mp hfield
          obtain rfl := Option.some.inj (hgiven.symm.trans hvalue)
          exact ⟨coerced, hcoerced⟩

theorem HasMeaning.of_leaf (hmissing : value.isMissing = false)
    (h : ∃ literal, valueToLiteral types value type = some literal ∧ isPlain literal = true ∧
      coerceInputLiteral types none coerceDefault literal type = .ok coerced) :
    HasMeaning types coerceDefault value type coerced := by
  obtain ⟨literal, hliteral, hplain, hcoerce⟩ := h
  exact ⟨literal, hliteral, .of_plain hmissing hplain, hcoerce⟩

/-- A value that is coerced has a literal that is coerced to the same. -/
theorem hasMeaning (hreplace : ∀ name fields, types.named name = .inputObject fields true →
      ∀ fieldDef ∈ fields.items, ∀ fieldDef' ∈ fields.items, fieldDef.1 ≠ fieldDef'.1 →
        fieldDef.2.outNameOr fieldDef.1 = fieldDef'.2.outNameOr fieldDef'.1 →
          ∀ default, coerceDefault fieldDef'.2 ≠ .ok (some default))
    (value : HostValue floats) (type : GraphQLType) (coerced : HostValue floats)
    (h : coerceInputValue types coerceDefault value type = .ok coerced) :
    HasMeaning types coerceDefault value type coerced := by
  induction value, type using position_induction types generalizing coerced with
  | missing value type hmissing =>
      rw [coerceInputValue_missing hmissing] at h
      cases hnull : isNonNullType type with
      | true =>
          rw [hnull] at h
          nomatch h
      | false =>
          rw [hnull] at h
          refine ⟨.null none, ?_, ⟨fun _ => rfl, fun hpresent => ?_, fun hpresent => ?_⟩, ?_⟩
          · rw [valueToLiteral_missing hmissing, hnull]
            rfl
          · nomatch hpresent.symm.trans hmissing
          · nomatch hpresent.symm.trans hmissing
          · rw [coerceInputLiteral_null, hnull]
            exact h
  | nonNull value ofType hmissing ih =>
      rw [coerceInputValue_nonNull hmissing] at h
      obtain ⟨literal, hliteral, hstands, hcoerce⟩ := ih coerced h
      refine ⟨literal, by rw [valueToLiteral_nonNull hmissing, hliteral], hstands, ?_⟩
      rw [coerceInputLiteral_nonNull (hstands.present hmissing), hcoerce]
  | list items itemType ih =>
      rw [coerceInputValue_list] at h
      obtain ⟨coercedList, hitems, rfl⟩ := map_eq_ok.mp h
      obtain ⟨values, hvalues, hcoerce⟩ := items_meaning items itemType coercedList hitems ih
      refine ⟨.list values none, by rw [valueToLiteral_list, hvalues]; rfl,
        ⟨fun hmissing => ?_, fun _ => rfl, fun _ hlist => absurd rfl (hlist items)⟩, ?_⟩
      · nomatch hmissing
      · rw [coerceInputLiteral_list, hcoerce]
        rfl
  | single value itemType hmissing hlist ih =>
      rw [coerceInputValue_single hmissing hlist] at h
      obtain ⟨item, hitem, rfl⟩ := map_eq_ok.mp h
      obtain ⟨literal, hliteral, hstands, hcoerce⟩ := ih item hitem
      refine ⟨literal, by rw [valueToLiteral_single hmissing hlist, hliteral], hstands, ?_⟩
      rw [coerceInputLiteral_single (hstands.plain hmissing hlist), hcoerce]
      rfl
  | object name fields isOneOf isDict entries hnamed ih =>
      cases isDict with
      | false =>
          rw [coerceInputValue_noDict hnamed rfl fun _ => by simp] at h
          nomatch h
      | true =>
          rw [coerceInputValue_object hnamed] at h
          cases hknown : hasUnknown fields entries with
          | true =>
              rw [hknown] at h
              nomatch h
          | false =>
              rw [hknown, if_neg Bool.noConfusion] at h
              obtain ⟨coercedDict, hcoerce, h⟩ := bind_eq_ok.mp h
              have hfields := coerced_fields fields.items [] coercedDict hcoerce
              have hmeanings : ∀ fieldDef ∈ fields.items, ∀ value,
                  given entries fieldDef.1 = some value → ∃ literal,
                    valueToLiteral types value fieldDef.2.type = some literal ∧
                      StandsFor literal value := by
                intro fieldDef hmem value hgiven
                obtain ⟨coerced, hcoerced⟩ := (hfields fieldDef hmem).2 value hgiven
                obtain ⟨literal, hliteral, hstands, -⟩ := ih _ _ value hmem hgiven coerced hcoerced
                exact ⟨literal, hliteral, hstands⟩
              have hsome : (entriesToLiterals types entries fields.items).isSome := by
                refine (isSome_entriesToLiterals entries fields.items).mpr fun fieldDef hmem =>
                  ⟨(hfields fieldDef hmem).1, fun value hgiven => ?_⟩
                obtain ⟨literal, hliteral, -⟩ := hmeanings fieldDef hmem value hgiven
                rw [hliteral]
                rfl
              obtain ⟨nodes, hnodes⟩ := Option.isSome_iff_exists.mp hsome
              have hpairs := map_nodePair entries fields.items nodes hnodes
              have hnodup : ((literalPairs types entries fields.items).map Prod.fst).Nodup :=
                (keys_literalPairs entries fields.items).nodup fields.nodup_keys
              have hdict : fieldNodes nodes = literalPairs types entries fields.items := by
                rw [fieldNodes_eq (hpairs ▸ hnodup), hpairs]
              refine ⟨.object nodes none, ?_, .of_plain rfl rfl, ?_⟩
              · rw [valueToLiteral_object hnamed, hknown, if_neg Bool.noConfusion, hnodes]
                rfl
              · have hdefined : ((literalPairs types entries fields.items).any fun node =>
                    (fields.get node.1).isNone) = false := by
                  rw [List.any_eq_false]
                  rintro ⟨fieldName, literal⟩ hpair
                  obtain ⟨field, -, hmem, -⟩ := mem_literalPairs.mp hpair
                  simp [Dict.mem_items_iff.mp hmem]
                have hnodes := fields_meaning entries (literalPairs types entries fields.items)
                  fields.items [] coercedDict hcoerce
                  (fun fieldDef hmem => find_literalPairs fields.nodup_keys hmem)
                  fun fieldDef hmem value hgiven coerced => ih _ _ value hmem hgiven coerced
                rw [coerceInputLiteral_object hnamed, hdict, hdefined, if_neg Bool.noConfusion,
                  hnodes]
                cases isOneOf with
                | false => exact h
                | true =>
                    split at h
                    · nomatch h
                    · rename_i hone
                      have hvalue : isOneOfValue (definedEntries entries).length coercedDict =
                          true := by simpa using hone
                      have hliteral := oneOf_meaning hknown hcoerce (hreplace name fields hnamed)
                        hmeanings hvalue
                      simpa [hliteral, bind, Except.bind] using h
  | other value name hmissing hobject =>
      cases hnamed : types.named name with
      | scalar scalar =>
          rw [coerceInputValue_scalar hnamed hmissing] at h
          obtain ⟨hvalue, hdefined⟩ := finishLeaf_eq_ok h
          obtain ⟨literal, hliteral, hplain, hcoerce⟩ := scalar_meaning hvalue
          refine .of_leaf hmissing ⟨literal, ?_, hplain, ?_⟩
          · rw [valueToLiteral_scalar hnamed hmissing, hliteral]
          · rw [coerceInputLiteral_scalar hnamed (isPresent_of_isPlain hplain), hcoerce,
              ← hvalue, h]
      | customScalar custom => nomatch custom
      | «enum» values =>
          rw [coerceInputValue_enum hnamed hmissing] at h
          obtain ⟨hvalue, hdefined⟩ := finishLeaf_eq_ok h
          obtain ⟨literal, hliteral, hplain, hcoerce⟩ := enum_meaning hvalue
          refine .of_leaf hmissing ⟨literal, ?_, hplain, ?_⟩
          · rw [valueToLiteral_enum hnamed hmissing, hliteral]
          · rw [coerceInputLiteral_enum hnamed (isPresent_of_isPlain hplain), hcoerce,
              ← hvalue, h]
      | inputObject fields isOneOf =>
          rw [coerceInputValue_noDict hnamed hmissing fun entries hvalue =>
            hobject true entries hvalue fields isOneOf hnamed] at h
          nomatch h

end Values

theorem NoReplacement.no_default {types : InputTypes floats Empty} (h : NoReplacement types)
    (depth : ℕ) : ∀ name fields, types.named name = .inputObject fields true →
      ∀ fieldDef ∈ fields.items, ∀ fieldDef' ∈ fields.items, fieldDef.1 ≠ fieldDef'.1 →
        fieldDef.2.outNameOr fieldDef.1 = fieldDef'.2.outNameOr fieldDef'.1 →
          ∀ default, coerceDefaultValue types depth fieldDef'.2 ≠ .ok (some default) := by
  intro name fields hnamed fieldDef hmem fieldDef' hmem' hne hname
  obtain ⟨hdefault, hvalue⟩ := h name fields hnamed fieldDef hmem fieldDef' hmem' hne hname
  exact coerceDefaultValue_of_none depth hdefault hvalue

/-- Converting a value to a literal keeps its meaning, where no OneOf type lets a default
value replace the entry of another field. -/
theorem valueToLiteral_keeps_meaning (types : InputTypes floats Empty)
    (hreplace : NoReplacement types) (depth : ℕ) (value : HostValue floats) (type : GraphQLType)
    (coerced : HostValue floats)
    (h : coerceInputValue types (coerceDefaultValue types depth) value type = .ok coerced) :
    ∃ literal, valueToLiteral types value type = some literal ∧
      coerceInputLiteral types none (coerceDefaultValue types depth) literal type =
        .ok coerced := by
  obtain ⟨literal, hliteral, -, hcoerce⟩ :=
    hasMeaning (hreplace.no_default depth) value type coerced h
  exact ⟨literal, hliteral, hcoerce⟩

/-- `{ cat: 1 }` keeps its meaning as an `input Pet @oneOf { cat: Int, dog: Int }`. -/
theorem valueToLiteral_keeps_meaning_cat :
    ∃ literal, valueToLiteral petTypes (.mapping true [(str "cat", .int 1)])
        (.named (str "Pet")) = some literal ∧
      coerceInputLiteral petTypes none (coerceDefaultValue petTypes 1) literal
        (.named (str "Pet")) = .ok (.mapping true [(str "cat", .int 1)]) := by
  have hnamed : petTypes.named (str "Pet") = .inputObject petFields true := rfl
  have hitems : petFields.items =
    [(str "cat", { type := .named (str "Int") }),
      (str "dog", { type := .named (str "Int") })] := rfl
  have hreplace : NoReplacement petTypes := by
    intro name fields hobject
    simp only [petTypes] at hobject
    split at hobject
    · rw [← (NamedInputType.inputObject.inj hobject).1, hitems]
      decide
    · cases hobject
  have hcat : coerceInputValue petTypes (coerceDefaultValue petTypes 1) (.int 1)
      (.named (str "Int")) = .ok (.int 1) := by
    rw [coerceInputValue_scalar rfl rfl]
    rfl
  have hfields : coerceFields petTypes (coerceDefaultValue petTypes 1) [(str "cat", .int 1)]
      petFields.items [] = .ok [(str "cat", .int 1)] := by
    rw [hitems, coerceFields_given rfl, hcat]
    change coerceFields petTypes _ _ [_] [(str "cat", .int 1)] = _
    rw [coerceFields_absent rfl]
    change coerceFields petTypes _ _ [] [(str "cat", .int 1)] = _
    rw [coerceFields]
  refine valueToLiteral_keeps_meaning petTypes hreplace 1 _ _ _ ?_
  rw [coerceInputValue_object hnamed, hfields]
  rfl

def replacingDog : InputField integralFloats :=
  { type := .named (str "Int"), defaultValue := .int 1, outName := some (str "pet") }

/-- A OneOf type whose second field has a default value and the out name of the first. -/
def replacingFields : Dict Text (InputField integralFloats) :=
  (Dict.empty.set (str "cat") { type := .named (str "Int"), outName := some (str "pet") }).set
    (str "dog") replacingDog

def replacingTypes : InputTypes integralFloats Empty where
  named name := if name = str "Pet" then .inputObject replacingFields true else .scalar .int

/-- `{ cat: null }` -/
def noCat : HostValue integralFloats := .mapping true [(str "cat", .none)]

theorem coerceInputValue_noCat :
    coerceInputValue replacingTypes (coerceDefaultValue replacingTypes 1) noCat
      (.named (str "Pet")) = .ok (.mapping true [(str "pet", .int 1)]) := by
  have hnamed : replacingTypes.named (str "Pet") = .inputObject replacingFields true := rfl
  have hitems : replacingFields.items =
    [(str "cat", { type := .named (str "Int"), outName := some (str "pet") }),
      (str "dog", replacingDog)] := rfl
  have hfields : coerceFields replacingTypes (coerceDefaultValue replacingTypes 1)
      [(str "cat", .none)] replacingFields.items [] = .ok [(str "pet", .int 1)] := by
    rw [hitems, coerceFields_given rfl, coerceInputValue_missing rfl]
    change coerceFields replacingTypes _ _ [(str "dog", replacingDog)] [(str "pet", .none)] = _
    rw [coerceFields_absent rfl]
    change coerceFields replacingTypes _ _ [] [(str "pet", .int 1)] = _
    rw [coerceFields]
  rw [noCat, coerceInputValue_object hnamed, hfields]
  rfl

theorem valueToLiteral_noCat :
    valueToLiteral replacingTypes noCat (.named (str "Pet")) =
      some (.object [⟨{ value := str "cat" }, .null none, none⟩] none) := by
  have hnamed : replacingTypes.named (str "Pet") = .inputObject replacingFields true := rfl
  have hitems : replacingFields.items =
    [(str "cat", { type := .named (str "Int"), outName := some (str "pet") }),
      (str "dog", replacingDog)] := rfl
  have hnodes : entriesToLiterals replacingTypes [(str "cat", .none)] replacingFields.items =
      some [⟨{ value := str "cat" }, .null none, none⟩] := by
    rw [hitems, entriesToLiterals_given rfl, valueToLiteral_missing rfl,
      entriesToLiterals_absent rfl, entriesToLiterals]
    rfl
  rw [noCat, valueToLiteral_object hnamed, hnodes]
  rfl

/-- The literal is refused, since its only field is null. -/
theorem coerceInputLiteral_noCat :
    coerceInputLiteral replacingTypes none (coerceDefaultValue replacingTypes 1)
      (.object [⟨{ value := str "cat" }, .null none, none⟩] none) (.named (str "Pet")) =
        .error .undefined := by
  have hnamed : replacingTypes.named (str "Pet") = .inputObject replacingFields true := rfl
  have hitems : replacingFields.items =
    [(str "cat", { type := .named (str "Int"), outName := some (str "pet") }),
      (str "dog", replacingDog)] := rfl
  have hcoerced : coerceFieldNodes replacingTypes none (coerceDefaultValue replacingTypes 1)
      [(str "cat", .null none)] replacingFields.items [] = .ok [(str "pet", .int 1)] := by
    have hnull : coerceInputLiteral replacingTypes none (coerceDefaultValue replacingTypes 1)
        (.null none) (.named (str "Int")) = .ok .none := by
      rw [coerceInputLiteral]
    rw [hitems, coerceFieldNodes_given rfl rfl, hnull]
    change coerceFieldNodes replacingTypes _ _ _ [_] [(str "pet", .none)] = _
    rw [coerceFieldNodes_absent fun _ hfind => by cases hfind]
    change coerceFieldNodes replacingTypes _ _ _ [] [(str "pet", .int 1)] = _
    rw [coerceFieldNodes]
  rw [coerceInputLiteral_object hnamed]
  change (coerceFieldNodes replacingTypes none (coerceDefaultValue replacingTypes 1)
      [(str "cat", .null none)] replacingFields.items [] >>= _) = _
  rw [hcoerced]
  rfl

/-- The default value takes the place of null in the value, but not in the literal. -/
theorem noCat_loses_meaning :
    ¬∀ (floats : FloatFormat) (types : InputTypes floats Empty) (depth : ℕ)
      (value : HostValue floats) (type : GraphQLType) (coerced : HostValue floats),
      coerceInputValue types (coerceDefaultValue types depth) value type = .ok coerced →
        ∃ literal, valueToLiteral types value type = some literal ∧
          coerceInputLiteral types none (coerceDefaultValue types depth) literal type =
            .ok coerced := by
  intro h
  obtain ⟨literal, hliteral, hmeaning⟩ :=
    h integralFloats replacingTypes 1 _ _ _ coerceInputValue_noCat
  obtain rfl := Option.some.inj (valueToLiteral_noCat.symm.trans hliteral)
  cases coerceInputLiteral_noCat.symm.trans hmeaning

end GraphqlCore.ValueLiterals
