import GraphqlCore.Utilities.LiteralConverters

/-!
# When the literal converters agree

`value_from_ast` and `coerce_input_literal` for the input types of a schema that is built from
its definition.  Both are converters, and they agree where they accept the same literals and
no default value is used.
-/

namespace GraphqlCore.ValueLiterals

open Language

variable {floats : FloatFormat} {Custom : Type}

/-! ## The two converters -/

/-- Input types as they are built from a schema definition. -/
structure BuiltFromDefinition (types : InputTypes floats Custom) : Prop where
  outName : ∀ name fields isOneOf, types.named name = .inputObject fields isOneOf →
    ∀ fieldDef ∈ fields.items, fieldDef.2.outName = none
  defaultValue : ∀ name fields isOneOf, types.named name = .inputObject fields isOneOf →
    ∀ fieldDef ∈ fields.items, fieldDef.2.defaultValue = .undefined
  default : ∀ name fields isOneOf, types.named name = .inputObject fields isOneOf →
    ∀ fieldDef ∈ fields.items, ∀ value, fieldDef.2.default ≠ some (.value value)
  /-- The internal value of an enum value is its name. -/
  «enum» : ∀ name values, types.named name = .enum values →
    ∀ text value, values.get text = some value → value = .str text
  outType : ∀ name entries, types.outType name entries = .mapping true entries

/-- `value_from_ast` -/
def older (variableValues : Variables floats) : Converter floats Custom where
  parse := parseLiteral variableValues
  defaultLiteral _ := none

/-- `coerce_input_literal` -/
def current (variableValues : Variables floats) : Converter floats Custom where
  parse leafType valueNode :=
    match leafType with
    | .scalar scalar => scalar.coerceInputLiteral valueNode
    | .enum values => enumCoerceInputLiteral values valueNode
    | .customScalar _ => some (valueFromAstUntyped variableValues valueNode)
    | .inputObject _ _ => none
  defaultLiteral field :=
    match field.default with
    | some (.literal literal) => some literal
    | _ => none

section Laws

variable {types : InputTypes floats Custom} {variableValues : Variables floats}

/-- The value that a field adds to the entries, in both converters. -/
theorem fieldValue_eq {omitted : InputField floats → Except Stop (Option (HostValue floats))}
    {convert : ValueNode → GraphQLType → Except Stop (HostValue floats)}
    {nodes : List (Text × ValueNode)} {fieldName : Text} {field : InputField floats} :
    fieldValue variableValues omitted convert nodes (fieldName, field) =
      match Dict.find fieldName nodes with
      | none => omitted field
      | some valueNode =>
          if isMissingVariable variableValues valueNode then omitted field
          else some <$> convert valueNode field.type := by
  rw [fieldValue, supplied]
  cases Dict.find fieldName nodes with
  | none => rfl
  | some valueNode =>
      cases hmissing : isMissingVariable variableValues valueNode <;>
        simp [Option.filter, hmissing]

/-- The entry of a field that has no out name is added at the end. -/
theorem addField_eq {field : InputField floats} {fieldName : Text}
    {entries : List (Text × HostValue floats)} (houtName : field.outName = none)
    (hnew : fieldName ∉ entries.map Prod.fst) (value : Option (HostValue floats)) :
    addField field fieldName entries value =
      entries ++ (value.map fun value => (fieldName, value)).toList := by
  have hname : field.outNameOr fieldName = fieldName := by
    rw [InputField.outNameOr, houtName]
  cases value with
  | none => simp [addField]
  | some value =>
      rw [addField, hname, Dict.store_eq_append hnew]
      rfl

/-- Fields that are added one after the other are collected. -/
theorem addFields_eq_collectFields
    (f : Text × InputField floats → Except Stop (Option (HostValue floats)))
    (addFields : List (Text × InputField floats) → List (Text × HostValue floats) →
      Except Stop (List (Text × HostValue floats)))
    (hnil : ∀ entries, addFields [] entries = .ok entries)
    (hcons : ∀ fieldDef rest entries, addFields (fieldDef :: rest) entries =
      f fieldDef >>= fun value => addFields rest (addField fieldDef.2 fieldDef.1 entries value))
    (fields : List (Text × InputField floats)) (entries : List (Text × HostValue floats))
    (hnodup : (entries.map Prod.fst ++ fields.map Prod.fst).Nodup)
    (houtName : ∀ fieldDef ∈ fields, fieldDef.2.outName = none) :
    addFields fields entries = (fun new => entries ++ new) <$> collectFields f fields := by
  induction fields generalizing entries with
  | nil =>
      rw [hnil, collectFields]
      exact congrArg Except.ok (List.append_nil entries).symm
  | cons fieldDef rest ih =>
      obtain ⟨hfield, hrest⟩ := List.forall_mem_cons.mp houtName
      rw [List.map_cons, List.nodup_middle, List.nodup_cons, List.mem_append, not_or] at hnodup
      obtain ⟨⟨hnew, hnewRest⟩, hnodup⟩ := hnodup
      rw [hcons, collectFields]
      cases f fieldDef with
      | error stop => rfl
      | ok value =>
          have hkeys : ((addField fieldDef.2 fieldDef.1 entries value).map Prod.fst ++
              rest.map Prod.fst).Nodup := by
            rw [addField_eq hfield hnew]
            cases value with
            | none => simpa using hnodup
            | some value =>
                rw [List.map_append, List.append_assoc]
                exact List.nodup_middle.mpr (List.nodup_cons.mpr
                  ⟨fun hmem => (List.mem_append.mp hmem).elim hnew hnewRest, hnodup⟩)
          change addFields rest _ = _
          rw [ih _ hkeys hrest, addField_eq hfield hnew]
          cases collectFields f rest with
          | error stop => rfl
          | ok new => exact congrArg Except.ok (List.append_assoc _ _ _)

theorem itemNodes_eq {coerceDefault : DefaultCoercion floats} (values : List ValueNode)
    (itemType : GraphQLType) :
    coerceItemNodes types variableValues coerceDefault values itemType =
      values.mapM (itemValue variableValues
        (coerceInputLiteral types variableValues coerceDefault) itemType) := by
  induction values with
  | nil =>
      rw [coerceItemNodes]
      rfl
  | cons item rest ih =>
      rw [coerceItemNodes, List.mapM_cons, ih, itemValue, Bool.and_comm]

theorem itemsFromAst_eq (values : List ValueNode) (itemType : GraphQLType)
    (hmissing : ∀ node, (variableValue variableValues node).isUndefined = true →
      valueFromAst types variableValues (.variable node) itemType = .error .undefined) :
    itemsFromAst types variableValues values itemType =
      values.mapM (itemValue variableValues (valueFromAst types variableValues) itemType) := by
  induction values with
  | nil =>
      rw [itemsFromAst]
      rfl
  | cons item rest ih =>
      rw [itemsFromAst, List.mapM_cons, ih, itemValue]
      cases hitem : isMissingVariable variableValues item with
      | false => rfl
      | true =>
          cases isNonNullType itemType with
          | false => rfl
          | true =>
              cases item with
              | «variable» node =>
                  have hundefined := hmissing node hitem
                  simp [hundefined]
              | _ => nomatch hitem

theorem fieldsFromAst_cons (nodes : List (Text × ValueNode))
    (fieldDef : Text × InputField floats) (rest : List (Text × InputField floats))
    (entries : List (Text × HostValue floats)) :
    fieldsFromAst types variableValues nodes (fieldDef :: rest) entries =
      fieldValue variableValues useDefaultValue (valueFromAst types variableValues) nodes
        fieldDef >>= fun value =>
          fieldsFromAst types variableValues nodes rest
            (addField fieldDef.2 fieldDef.1 entries value) := by
  obtain ⟨fieldName, field⟩ := fieldDef
  rw [fieldsFromAst, fieldValue_eq]
  split <;> rename_i hfind <;> simp only [hfind]

theorem coerceFieldNodes_cons (coerceDefault : DefaultCoercion floats)
    (nodes : List (Text × ValueNode)) (fieldDef : Text × InputField floats)
    (rest : List (Text × InputField floats)) (entries : List (Text × HostValue floats)) :
    coerceFieldNodes types variableValues coerceDefault nodes (fieldDef :: rest) entries =
      fieldValue variableValues
        (fun field => if field.isRequired then .error .undefined else coerceDefault field)
        (coerceInputLiteral types variableValues coerceDefault) nodes fieldDef >>= fun value =>
          coerceFieldNodes types variableValues coerceDefault nodes rest
            (addField fieldDef.2 fieldDef.1 entries value) := by
  obtain ⟨fieldName, field⟩ := fieldDef
  rw [coerceFieldNodes, fieldValue_eq]
  split <;> rename_i hfind <;> simp only [hfind]

variable (hbuilt : BuiltFromDefinition types)

theorem valueFromAst_variable (node : VariableNode) (type : GraphQLType) :
    valueFromAst types variableValues (.variable node) type =
      if (variableValue variableValues node).isUndefined ||
        (variableValue variableValues node).isNone && isNonNullType type then .error .undefined
      else .ok (variableValue variableValues node) := by
  rw [valueFromAst.eq_def]

theorem isNone_valueFromAstUntyped {literal : ValueNode} (hpresent : isPresent literal = true) :
    (valueFromAstUntyped variableValues literal).isNone = false := by
  cases literal with
  | int value => rw [valueFromAstUntyped]; split <;> rfl
  | _ => first | rfl | nomatch hpresent

include hbuilt in
theorem isNone_enumLiteral {name : Text} {values : Dict Text (HostValue floats)}
    (hnamed : types.named name = .enum values) {literal : ValueNode} {value : HostValue floats}
    (h : enumCoerceInputLiteral values literal = some value) : value.isNone = false := by
  cases literal with
  | «enum» text =>
      rw [hbuilt.enum name values hnamed text value h]
      rfl
  | _ => nomatch h

theorem isNone_scalarLiteral {scalar : SpecifiedScalar} {literal : ValueNode}
    {value : HostValue floats} (h : scalar.coerceInputLiteral literal = some value) :
    value.isNone = false := by
  cases scalar with
  | string =>
      cases literal with
      | string node => exact Option.some.inj h ▸ rfl
      | _ => nomatch h
  | int =>
      cases literal with
      | int text loc =>
          obtain ⟨number, -, rfl⟩ := Option.map_eq_some_iff.mp h
          rfl
      | _ => nomatch h
  | float =>
      cases literal with
      | int text loc =>
          obtain ⟨number, -, rfl⟩ := Option.map_eq_some_iff.mp h
          rfl
      | float text loc =>
          obtain ⟨number, -, rfl⟩ := Option.map_eq_some_iff.mp h
          rfl
      | _ => nomatch h
  | boolean =>
      cases literal with
      | boolean value => exact Option.some.inj h ▸ rfl
      | _ => nomatch h
  | id =>
      cases literal with
      | string node => exact Option.some.inj h ▸ rfl
      | int text loc => exact Option.some.inj h ▸ rfl
      | _ => nomatch h

include hbuilt

/-- `value_from_ast` reads leaf literals with `parse_literal`. -/
theorem older_converts :
    Converts types variableValues (older variableValues) useDefaultValue
      (valueFromAst types variableValues) where
  «variable» := valueFromAst_variable
  null loc type := by
    rw [valueFromAst.eq_def]
    cases type <;> rfl
  nonNull literal type hpresent := by
    rw [valueFromAst.eq_def]
    cases literal <;> first | rfl | cases hpresent
  list values loc type := by
    rw [valueFromAst.eq_def]
    simp only
    rw [itemsFromAst_eq]
    · rfl
    · intro node hundefined
      rw [valueFromAst_variable, hundefined]
      rfl
  single literal type hplain := by
    rw [valueFromAst.eq_def]
    cases literal <;> first | exact Bool.noConfusion hplain | simp
  object name fieldDefs isOneOf hnamed fields loc := by
    have hcollect := addFields_eq_collectFields _
      (fieldsFromAst types variableValues (fieldNodes fields))
      (fun entries => by rw [fieldsFromAst])
      (fieldsFromAst_cons (fieldNodes fields)) fieldDefs.items [] fieldDefs.nodup_keys
      (hbuilt.outName _ _ _ hnamed)
    rw [valueFromAst.eq_def]
    simp only [hnamed, hcollect, hbuilt.outType, List.nil_append, id_map']
  noObject name fieldDefs isOneOf hnamed literal hpresent hobject := by
    rw [valueFromAst.eq_def]
    cases literal <;> simp_all [isPresent]
  leaf name hleaf literal hpresent := by
    rw [valueFromAst.eq_def]
    cases hnamed : types.named name with
    | inputObject fieldDefs isOneOf => exact absurd hnamed (hleaf fieldDefs isOneOf)
    | _ => cases literal <;> first | exact Bool.noConfusion hpresent | simp [hnamed, older]
  parse_isNone name literal value hpresent h := by
    cases hnamed : types.named name with
    | inputObject fieldDefs isOneOf =>
        rw [hnamed] at h
        cases h
    | scalar scalar =>
        rw [hnamed] at h
        have hmissing := isNone_scalarValue h
        cases value <;> first | rfl | cases hmissing
    | customScalar custom =>
        rw [hnamed] at h
        rw [← Option.some.inj h]
        exact isNone_valueFromAstUntyped hpresent
    | «enum» values =>
        rw [hnamed] at h
        exact isNone_enumLiteral hbuilt hnamed h
  outName := hbuilt.outName

/-- `coerce_input_literal` reads the literals of specified scalars with their own functions. -/
theorem current_converts (coerceDefault : DefaultCoercion floats) :
    Converts types variableValues (current variableValues)
      (fun field => if field.isRequired then .error .undefined else coerceDefault field)
      (coerceInputLiteral types variableValues coerceDefault) where
  «variable» node type := coerceInputLiteral_variable node
  null loc type := coerceInputLiteral_null loc
  nonNull literal type hpresent := coerceInputLiteral_nonNull hpresent
  list values loc type := by rw [coerceInputLiteral_list, itemNodes_eq]
  single literal type hplain := coerceInputLiteral_single hplain
  object name fieldDefs isOneOf hnamed fields loc := by
    have hcollect := addFields_eq_collectFields _
      (coerceFieldNodes types variableValues coerceDefault (fieldNodes fields))
      (fun entries => by rw [coerceFieldNodes])
      (coerceFieldNodes_cons coerceDefault (fieldNodes fields)) fieldDefs.items []
      fieldDefs.nodup_keys (hbuilt.outName _ _ _ hnamed)
    rw [coerceInputLiteral_object hnamed]
    simp only [hcollect, hbuilt.outType, List.nil_append, id_map']
  noObject name fieldDefs isOneOf hnamed literal hpresent hobject :=
    coerceInputLiteral_noObject hnamed hpresent hobject
  leaf name hleaf literal hpresent := by
    cases hnamed : types.named name with
    | inputObject fieldDefs isOneOf => exact absurd hnamed (hleaf fieldDefs isOneOf)
    | scalar scalar => rw [coerceInputLiteral_scalar hnamed hpresent, current]
    | customScalar custom => rw [coerceInputLiteral_customScalar hnamed hpresent, current]
    | «enum» values => rw [coerceInputLiteral_enum hnamed hpresent, current]
  parse_isNone name literal value hpresent h := by
    cases hnamed : types.named name with
    | inputObject fieldDefs isOneOf =>
        rw [hnamed] at h
        cases h
    | scalar scalar =>
        rw [hnamed] at h
        exact isNone_scalarLiteral h
    | customScalar custom =>
        rw [hnamed] at h
        rw [← Option.some.inj h]
        exact isNone_valueFromAstUntyped hpresent
    | «enum» values =>
        rw [hnamed] at h
        exact isNone_enumLiteral hbuilt hnamed h
  outName := hbuilt.outName

theorem older_completes : Completes types (older variableValues) useDefaultValue where
  of_none name fieldDefs isOneOf hnamed fieldDef hmem _ := by
    rw [useDefaultValue, hbuilt.defaultValue _ _ _ hnamed _ hmem]
    rfl
  of_some name fieldDefs isOneOf hnamed fieldDef hmem literal h := nomatch h

theorem current_completes (depth : ℕ)
    (hvalid : ValidDefaults types (coerceDefaultValue types depth)) :
    Completes types (current variableValues)
      (fun field => if field.isRequired then .error .undefined
        else coerceDefaultValue types depth field) where
  of_none name fieldDefs isOneOf hnamed fieldDef hmem hnone := by
    have hdefault : fieldDef.2.default = none := by
      cases hdefault : fieldDef.2.default with
      | none => rfl
      | some default =>
          cases default with
          | literal literal => simp [current, hdefault] at hnone
          | value value => exact absurd hdefault (hbuilt.default _ _ _ hnamed _ hmem value)
    have hvalue := hbuilt.defaultValue _ _ _ hnamed _ hmem
    obtain ⟨value, hcoerced⟩ := hvalid _ _ _ hnamed _ hmem
    cases depth with
    | zero => cases hcoerced
    | succ depth =>
        simp [InputField.isRequired, coerceDefaultValue, hdefault, hvalue, HostValue.isUndefined]
  of_some name fieldDefs isOneOf hnamed fieldDef hmem literal h := by
    have hdefault : fieldDef.2.default = some (.literal literal) := by
      cases hdefault : fieldDef.2.default with
      | none => simp [current, hdefault] at h
      | some default =>
          cases default with
          | literal literal' => simpa [current, hdefault] using h
          | value value => exact absurd hdefault (hbuilt.default _ _ _ hnamed _ hmem value)
    obtain ⟨value, hcoerced⟩ := hvalid _ _ _ hnamed _ hmem
    have hrequired : fieldDef.2.isRequired = false := by
      simp [InputField.isRequired, hdefault]
    cases depth with
    | zero => cases hcoerced
    | succ depth =>
        rw [hrequired, if_neg Bool.noConfusion]
        simp only [coerceDefaultValue, hdefault] at hcoerced ⊢
        cases hliteral : coerceInputLiteral types none (coerceDefaultValue types depth) literal
          fieldDef.2.type with
        | error stop =>
            rw [hliteral] at hcoerced
            cases stop <;> cases hcoerced
        | ok value' => exact ⟨value', rfl, (current_converts hbuilt _).isNone_eq hliteral⟩

end Laws

/-! ## Different values -/

/-- Number literals that a scalar reads as different values in the two converters: as the text
of a float instead of an integer, or as a text that is no usual form of the integer. -/
def ReadsDifferently (floats : FloatFormat) : SpecifiedScalar → ValueNode → Prop
  | .float, .int text loc =>
      SpecifiedScalar.coerceFloat (valueFromAstUntyped (none : Variables floats)
        (.int text loc)) ≠ SpecifiedScalar.parseFloatLiteral (.int text loc)
  | .id, .int text loc =>
      SpecifiedScalar.coerceId (valueFromAstUntyped (none : Variables floats)
        (.int text loc)) ≠ SpecifiedScalar.parseIdLiteral (.int text loc)
  | _, _ => False

/-- The parts of a literal that both converters accept with different values: number literals
that are read differently, and omitted fields with a default value. -/
inductive Departs (types : InputTypes floats Custom) (variableValues : Variables floats) :
    ValueNode → GraphQLType → Prop
  | nonNull {literal : ValueNode} {type : GraphQLType} (hpresent : isPresent literal = true)
      (h : Departs types variableValues literal type) :
      Departs types variableValues literal (.nonNull type)
  | item {values : List ValueNode} {loc : Option Location} {type : GraphQLType}
      {value : ValueNode} (hmem : value ∈ values)
      (h : Departs types variableValues value type) :
      Departs types variableValues (.list values loc) (.list type)
  | single {literal : ValueNode} {type : GraphQLType} (hplain : isPlain literal = true)
      (h : Departs types variableValues literal type) :
      Departs types variableValues literal (.list type)
  | field {fields : List ObjectFieldNode} {loc : Option Location} {name : Text}
      {fieldDefs : Dict Text (InputField floats)} {isOneOf : Bool}
      {fieldDef : Text × InputField floats} {literal : ValueNode}
      (hnamed : types.named name = .inputObject fieldDefs isOneOf)
      (hmem : fieldDef ∈ fieldDefs.items)
      (hsupplied : supplied variableValues (fieldNodes fields) fieldDef.1 = some literal)
      (h : Departs types variableValues literal fieldDef.2.type) :
      Departs types variableValues (.object fields loc) (.named name)
  | omitted {fields : List ObjectFieldNode} {loc : Option Location} {name : Text}
      {fieldDefs : Dict Text (InputField floats)} {isOneOf : Bool}
      {fieldDef : Text × InputField floats}
      (hnamed : types.named name = .inputObject fieldDefs isOneOf)
      (hmem : fieldDef ∈ fieldDefs.items)
      (hsupplied : supplied variableValues (fieldNodes fields) fieldDef.1 = none)
      (hdefault : fieldDef.2.default ≠ none) :
      Departs types variableValues (.object fields loc) (.named name)
  | scalar {literal : ValueNode} {name : Text} {scalar : SpecifiedScalar}
      (hnamed : types.named name = .scalar scalar)
      (h : ReadsDifferently floats scalar literal) :
      Departs types variableValues literal (.named name)

section Comparison

/-- Lists of results are equal where the results are. -/
theorem mapM_eq_iff {α β : Type} {items : List α} {f g : α → Except Stop β}
    {values results : List β}
    (hf : items.mapM f = .ok values) (hg : items.mapM g = .ok results) :
    values = results ↔
      ∀ item ∈ items, ∀ a b, f item = .ok a → g item = .ok b → a = b := by
  induction items generalizing values results with
  | nil =>
      rw [← Except.ok.inj hf, ← Except.ok.inj hg]
      exact iff_of_true rfl fun _ hmem => nomatch hmem
  | cons item rest ih =>
      rw [List.mapM_cons] at hf hg
      obtain ⟨a, ha, hf⟩ := bind_eq_ok.mp hf
      obtain ⟨as, has, hf⟩ := bind_eq_ok.mp hf
      obtain ⟨b, hb, hg⟩ := bind_eq_ok.mp hg
      obtain ⟨bs, hbs, hg⟩ := bind_eq_ok.mp hg
      rw [← Except.ok.inj hf, ← Except.ok.inj hg, List.cons.injEq, ih has hbs,
        List.forall_mem_cons]
      refine and_congr_left fun _ => ⟨fun h a' b' ha' hb' => ?_, fun h => h a b ha hb⟩
      rw [← Except.ok.inj (ha.symm.trans ha'), ← Except.ok.inj (hb.symm.trans hb'), h]

theorem keys_collectFields {fields : List (Text × InputField floats)}
    {f : Text × InputField floats → Except Stop (Option (HostValue floats))}
    {entries : List (Text × HostValue floats)} (h : collectFields f fields = .ok entries) :
    ∀ entry ∈ entries, entry.1 ∈ fields.map Prod.fst := by
  induction fields generalizing entries with
  | nil =>
      rw [← Except.ok.inj h]
      exact fun _ hmem => nomatch hmem
  | cons fieldDef rest ih =>
      obtain ⟨value, -, h⟩ := bind_eq_ok.mp h
      obtain ⟨new, hnew, h⟩ := bind_eq_ok.mp h
      rw [← Except.ok.inj h]
      intro entry hmem
      rcases List.mem_append.mp hmem with hmem | hmem
      · cases value with
        | none => nomatch hmem
        | some value =>
            rw [List.mem_singleton.mp hmem]
            exact List.mem_cons_self
      · exact List.mem_cons_of_mem _ (ih hnew entry hmem)

/-- Objects are equal where the values of their fields are. -/
theorem collectFields_eq_iff {fields : List (Text × InputField floats)}
    (hnodup : (fields.map Prod.fst).Nodup)
    {f g : Text × InputField floats → Except Stop (Option (HostValue floats))}
    {entries results : List (Text × HostValue floats)}
    (hf : collectFields f fields = .ok entries) (hg : collectFields g fields = .ok results) :
    entries = results ↔
      ∀ fieldDef ∈ fields, ∀ a b, f fieldDef = .ok a → g fieldDef = .ok b → a = b := by
  induction fields generalizing entries results with
  | nil =>
      rw [← Except.ok.inj hf, ← Except.ok.inj hg]
      exact iff_of_true rfl fun _ hmem => nomatch hmem
  | cons fieldDef rest ih =>
      obtain ⟨hnew, hnodup⟩ := List.nodup_cons.mp hnodup
      obtain ⟨a, ha, hf⟩ := bind_eq_ok.mp hf
      obtain ⟨as, has, hf⟩ := bind_eq_ok.mp hf
      obtain ⟨b, hb, hg⟩ := bind_eq_ok.mp hg
      obtain ⟨bs, hbs, hg⟩ := bind_eq_ok.mp hg
      have hfst : ∀ {entries : List (Text × HostValue floats)},
          (∀ entry ∈ entries, entry.1 ∈ rest.map Prod.fst) →
          ∀ value : HostValue floats, (fieldDef.1, value) ∉ entries :=
        fun hkeys value hmem => hnew (hkeys _ hmem)
      have hhead : (∀ a' b', f fieldDef = .ok a' → g fieldDef = .ok b' → a' = b') ↔ a = b := by
        refine ⟨fun h => h a b ha hb, fun h a' b' ha' hb' => ?_⟩
        rw [← Except.ok.inj (ha.symm.trans ha'), ← Except.ok.inj (hb.symm.trans hb'), h]
      rw [← Except.ok.inj hf, ← Except.ok.inj hg, List.forall_mem_cons, hhead,
        ← ih hnodup has hbs]
      cases a with
      | none =>
          cases b with
          | none => simp
          | some b =>
              refine iff_of_false (fun h => ?_) nofun
              have hentries : as = (fieldDef.1, b) :: bs := h
              exact hfst (keys_collectFields has) b (hentries ▸ List.mem_cons_self)
      | some a =>
          cases b with
          | none =>
              refine iff_of_false (fun h => ?_) nofun
              have hentries : (fieldDef.1, a) :: as = bs := h
              exact hfst (keys_collectFields hbs) a (hentries ▸ List.mem_cons_self)
          | some b => simp

/-- A scalar reads a literal that both converters take in the same way, but for some numbers. -/
theorem scalar_eq_iff {scalar : SpecifiedScalar} {literal : ValueNode}
    {variableValues : Variables floats} {value result : HostValue floats}
    (hvalue : scalar.coerceInputValue (valueFromAstUntyped variableValues literal) = some value)
    (hresult : scalar.coerceInputLiteral literal = some result) :
    value = result ↔ ¬ReadsDifferently floats scalar literal := by
  have hdifferent : ∀ {x y : Option (HostValue floats)}, x = some value → y = some result →
      (value = result ↔ ¬x ≠ y) := by
    rintro x y rfl rfl
    rw [not_not, Option.some.injEq]
  cases scalar with
  | string =>
      cases literal with
      | string node =>
          exact iff_of_true (Option.some.inj (hvalue.symm.trans hresult)) not_false
      | _ => nomatch hresult
  | int =>
      cases literal with
      | int text loc =>
          refine iff_of_true ?_ not_false
          obtain ⟨number, hnumber, rfl⟩ := Option.map_eq_some_iff.mp hresult
          obtain ⟨hread, hrange⟩ := Option.filter_eq_some_iff.mp hnumber
          rw [valueFromAstUntyped, hread] at hvalue
          obtain ⟨number', hnumber', rfl⟩ := Option.map_eq_some_iff.mp hvalue
          obtain ⟨hsame, -⟩ := Option.filter_eq_some_iff.mp hnumber'
          rw [Option.some.inj hsame]
      | _ => nomatch hresult
  | float =>
      cases literal with
      | int text loc => exact hdifferent hvalue hresult
      | float text loc =>
          refine iff_of_true ?_ not_false
          obtain ⟨number, hread, rfl⟩ := Option.map_eq_some_iff.mp hresult
          rw [valueFromAstUntyped, hread] at hvalue
          exact (Option.some.inj (Option.ite_none_right_eq_some.mp hvalue).2).symm
      | _ => nomatch hresult
  | boolean =>
      cases literal with
      | boolean flag =>
          exact iff_of_true (Option.some.inj (hvalue.symm.trans hresult)) not_false
      | _ => nomatch hresult
  | id =>
      cases literal with
      | int text loc => exact hdifferent hvalue hresult
      | string node =>
          exact iff_of_true (Option.some.inj (hvalue.symm.trans hresult)) not_false
      | _ => nomatch hresult

theorem exists_of_mapM {α β : Type} {items : List α} {f : α → Except Stop β} {values : List β}
    (h : items.mapM f = .ok values) {item : α} (hmem : item ∈ items) : ∃ a, f item = .ok a := by
  induction items generalizing values with
  | nil => nomatch hmem
  | cons first rest ih =>
      rw [List.mapM_cons] at h
      obtain ⟨a, ha, h⟩ := bind_eq_ok.mp h
      obtain ⟨as, has, -⟩ := bind_eq_ok.mp h
      rcases List.mem_cons.mp hmem with rfl | hmem
      · exact ⟨a, ha⟩
      · exact ih has hmem

theorem exists_of_collectFields {fields : List (Text × InputField floats)}
    {f : Text × InputField floats → Except Stop (Option (HostValue floats))}
    {entries : List (Text × HostValue floats)} (h : collectFields f fields = .ok entries)
    {fieldDef : Text × InputField floats} (hmem : fieldDef ∈ fields) :
    ∃ a, f fieldDef = .ok a := by
  induction fields generalizing entries with
  | nil => nomatch hmem
  | cons first rest ih =>
      obtain ⟨a, ha, h⟩ := bind_eq_ok.mp h
      obtain ⟨as, has, -⟩ := bind_eq_ok.mp h
      rcases List.mem_cons.mp hmem with rfl | hmem
      · exact ⟨a, ha⟩
      · exact ih has hmem

variable {types : InputTypes floats Custom} {variableValues : Variables floats} {depth : ℕ}

/-- The values of a field are equal where its literal has no part that departs, or no default
value takes its place. -/
theorem fieldValues_eq_iff (hbuilt : BuiltFromDefinition types)
    (hvalid : ValidDefaults types (coerceDefaultValue types depth)) {name : Text}
    {fieldDefs : Dict Text (InputField floats)} {isOneOf : Bool}
    (hnamed : types.named name = .inputObject fieldDefs isOneOf)
    {nodes : List (Text × ValueNode)} {fieldDef : Text × InputField floats}
    (hmem : fieldDef ∈ fieldDefs.items)
    (ih : ∀ literal, supplied variableValues nodes fieldDef.1 = some literal → ∀ value result,
      valueFromAst types variableValues literal fieldDef.2.type = .ok value →
      coerceInputLiteral types variableValues (coerceDefaultValue types depth) literal
        fieldDef.2.type = .ok result →
      (value = result ↔ ¬Departs types variableValues literal fieldDef.2.type))
    {a b : Option (HostValue floats)}
    (ha : fieldValue variableValues useDefaultValue (valueFromAst types variableValues) nodes
      fieldDef = .ok a)
    (hb : fieldValue variableValues
      (fun field => if field.isRequired then .error .undefined
        else coerceDefaultValue types depth field)
      (coerceInputLiteral types variableValues (coerceDefaultValue types depth)) nodes
      fieldDef = .ok b) :
    a = b ↔ (∀ literal, supplied variableValues nodes fieldDef.1 = some literal →
        ¬Departs types variableValues literal fieldDef.2.type) ∧
      (supplied variableValues nodes fieldDef.1 = none → fieldDef.2.default = none) := by
  rw [fieldValue] at ha hb
  cases hsupplied : supplied variableValues nodes fieldDef.1 with
  | some literal =>
      rw [hsupplied] at ha hb
      obtain ⟨value, hvalue, rfl⟩ := map_eq_ok.mp ha
      obtain ⟨result, hresult, rfl⟩ := map_eq_ok.mp hb
      rw [Option.some.injEq, ih literal hsupplied value result hvalue hresult]
      refine ⟨fun h => ⟨fun literal' hliteral => ?_, fun h => by cases h⟩, fun h => h.1 literal rfl⟩
      rwa [← Option.some.inj hliteral]
  | none =>
      rw [hsupplied] at ha hb
      simp only at ha hb
      have hknown : Completes types (older variableValues) useDefaultValue := older_completes hbuilt
      have hcurrent : Completes types (current variableValues)
          (fun field => if field.isRequired then .error .undefined
            else coerceDefaultValue types depth field) := current_completes hbuilt depth hvalid
      rw [hknown.of_none _ _ _ hnamed _ hmem rfl] at ha
      split at ha
      · cases ha
      · rename_i hnullable
        obtain rfl := Except.ok.inj ha
        cases hdefault : fieldDef.2.default with
        | none =>
            have homitted := hcurrent.of_none _ _ _ hnamed _ hmem (by simp [current, hdefault])
            rw [homitted, if_neg hnullable] at hb
            exact iff_of_true (Except.ok.inj hb) ⟨(fun _ h => by cases h), fun _ => rfl⟩
        | some default =>
            cases default with
            | value value => exact absurd hdefault (hbuilt.default _ _ _ hnamed _ hmem value)
            | literal literal =>
                obtain ⟨value, homitted, -⟩ := hcurrent.of_some _ _ _ hnamed _ hmem literal
                  (by simp [current, hdefault])
                rw [homitted] at hb
                refine iff_of_false (fun h => ?_) fun h => by cases h.2 rfl
                cases h.trans (Except.ok.inj hb).symm

theorem not_departs_variable {node : VariableNode} {type : GraphQLType} :
    ¬Departs types variableValues (.variable node) type := by
  intro h
  cases h with
  | nonNull hpresent => nomatch hpresent
  | single hplain => nomatch hplain
  | scalar _ h =>
      rename_i scalar _
      cases scalar <;> exact h

theorem not_departs_null {loc : Option Location} {type : GraphQLType} :
    ¬Departs types variableValues (.null loc) type := by
  intro h
  cases h with
  | nonNull hpresent => nomatch hpresent
  | single hplain => nomatch hplain
  | scalar _ h =>
      rename_i scalar _
      cases scalar <;> exact h

/-- Where both converters accept a literal they agree unless some part of it departs. -/
theorem values_eq_iff (hbuilt : BuiltFromDefinition types)
    (hvalid : ValidDefaults types (coerceDefaultValue types depth)) (literal : ValueNode)
    (type : GraphQLType) {value result : HostValue floats}
    (hvalue : valueFromAst types variableValues literal type = .ok value)
    (hresult : coerceInputLiteral types variableValues (coerceDefaultValue types depth) literal
      type = .ok result) :
    value = result ↔ ¬Departs types variableValues literal type := by
  have holder : Converts types variableValues (older variableValues) useDefaultValue
    (valueFromAst types variableValues) := older_converts hbuilt
  have hcurrent : Converts types variableValues (current variableValues) _
    (coerceInputLiteral types variableValues (coerceDefaultValue types depth)) :=
      current_converts hbuilt _
  induction literal, type using literal_induction types generalizing value result with
  | «variable» node type =>
      rw [holder.variable] at hvalue
      rw [hcurrent.variable, hvalue] at hresult
      exact iff_of_true (Except.ok.inj hresult) not_departs_variable
  | null loc type =>
      rw [holder.null] at hvalue
      rw [hcurrent.null, hvalue] at hresult
      exact iff_of_true (Except.ok.inj hresult) not_departs_null
  | nonNull literal ofType hpresent ih =>
      rw [holder.nonNull _ _ hpresent] at hvalue
      rw [hcurrent.nonNull _ _ hpresent] at hresult
      refine (ih hvalue hresult).trans (not_congr ⟨.nonNull hpresent, fun h => ?_⟩)
      cases h with
      | nonNull _ h => exact h
  | list values loc itemType ih =>
      rw [holder.list] at hvalue
      rw [hcurrent.list] at hresult
      obtain ⟨items, hitems, rfl⟩ := map_eq_ok.mp hvalue
      obtain ⟨items', hitems', rfl⟩ := map_eq_ok.mp hresult
      rw [HostValue.iterable.injEq, mapM_eq_iff hitems hitems']
      constructor
      · intro h hdeparts
        cases hdeparts with
        | single hplain => cases hplain
        | item hmem hdeparts =>
            rename_i item
            obtain ⟨a, ha⟩ := exists_of_mapM hitems hmem
            obtain ⟨b, hb⟩ := exists_of_mapM hitems' hmem
            have hsame := h item hmem a b ha hb
            rw [itemValue] at ha hb
            split at ha
            · rename_i hmissing
              cases item with
              | «variable» => exact not_departs_variable hdeparts
              | _ => simp [isMissingVariable] at hmissing
            · rename_i hgiven
              rw [if_neg hgiven] at hb
              exact (ih item hmem ha hb).mp hsame hdeparts
      · intro h item hmem a b ha hb
        rw [itemValue] at ha hb
        split at ha
        · rename_i hmissing
          rw [if_pos hmissing] at hb
          exact Except.ok.inj (ha.symm.trans hb)
        · rename_i hgiven
          rw [if_neg hgiven] at hb
          exact (ih item hmem ha hb).mpr fun hdeparts => h (.item hmem hdeparts)
  | single literal itemType hplain ih =>
      rw [holder.single _ _ hplain] at hvalue
      rw [hcurrent.single _ _ hplain] at hresult
      obtain ⟨item, hitem, rfl⟩ := map_eq_ok.mp hvalue
      obtain ⟨item', hitem', rfl⟩ := map_eq_ok.mp hresult
      rw [HostValue.iterable.injEq, List.cons.injEq, and_iff_left rfl]
      refine (ih hitem hitem').trans (not_congr ⟨.single hplain, fun h => ?_⟩)
      cases h with
      | single _ h => exact h
      | item => cases hplain
  | object fields loc name fieldDefs isOneOf hnamed ih =>
      rw [holder.object _ _ _ hnamed] at hvalue
      rw [hcurrent.object _ _ _ hnamed] at hresult
      split at hvalue
      · cases hvalue
      · rename_i hknown
        rw [if_neg hknown] at hresult
        obtain ⟨entries, hentries, hvalue⟩ := bind_eq_ok.mp hvalue
        obtain ⟨entries', hentries', hresult⟩ := bind_eq_ok.mp hresult
        split at hvalue
        · cases hvalue
        · split at hresult
          · cases hresult
          · rw [← Except.ok.inj hvalue, ← Except.ok.inj hresult, HostValue.mapping.injEq,
              and_iff_right rfl, collectFields_eq_iff fieldDefs.nodup_keys hentries hentries']
            have hvalues := fun fieldDef (hmem : fieldDef ∈ fieldDefs.items) =>
              fun a b ha hb => fieldValues_eq_iff hbuilt hvalid hnamed hmem (a := a) (b := b)
                (fun literal hsupplied value result => ih fieldDef hmem literal
                  (Converts.find_of_supplied hsupplied)) ha hb
            constructor
            · intro h hdeparts
              cases hdeparts with
              | field hnamed' hmem hsupplied hdeparts =>
                  obtain ⟨rfl, rfl⟩ :=
                    NamedInputType.inputObject.inj (hnamed.symm.trans hnamed')
                  obtain ⟨a, ha⟩ := exists_of_collectFields hentries hmem
                  obtain ⟨b, hb⟩ := exists_of_collectFields hentries' hmem
                  exact ((hvalues _ hmem a b ha hb).mp (h _ hmem a b ha hb)).1 _ hsupplied
                    hdeparts
              | omitted hnamed' hmem hsupplied hdefault =>
                  obtain ⟨rfl, rfl⟩ :=
                    NamedInputType.inputObject.inj (hnamed.symm.trans hnamed')
                  obtain ⟨a, ha⟩ := exists_of_collectFields hentries hmem
                  obtain ⟨b, hb⟩ := exists_of_collectFields hentries' hmem
                  exact hdefault (((hvalues _ hmem a b ha hb).mp (h _ hmem a b ha hb)).2
                    hsupplied)
              | scalar hnamed' => cases hnamed.symm.trans hnamed'
            · intro h fieldDef hmem a b ha hb
              refine (hvalues fieldDef hmem a b ha hb).mpr ⟨?_, ?_⟩
              · exact fun literal hsupplied hdeparts => h (.field hnamed hmem hsupplied hdeparts)
              · intro hsupplied
                by_contra hdefault
                exact h (.omitted hnamed hmem hsupplied hdefault)
  | other literal name hpresent hobject =>
      by_cases hinput : ∃ fieldDefs isOneOf, types.named name = .inputObject fieldDefs isOneOf
      · obtain ⟨fieldDefs, isOneOf, hnamed⟩ := hinput
        rw [holder.noObject _ _ _ hnamed _ hpresent fun fields loc hliteral =>
          hobject fields loc hliteral _ _ hnamed] at hvalue
        cases hvalue
      · have hleaf : ∀ fieldDefs isOneOf, types.named name ≠ .inputObject fieldDefs isOneOf :=
          fun fieldDefs isOneOf hnamed => hinput ⟨fieldDefs, isOneOf, hnamed⟩
        rw [holder.leaf name hleaf _ hpresent] at hvalue
        rw [hcurrent.leaf name hleaf _ hpresent] at hresult
        obtain ⟨hvalue, -⟩ := finishLeaf_eq_ok hvalue
        obtain ⟨hresult, -⟩ := finishLeaf_eq_ok hresult
        have hsame : ((older variableValues).parse (types.named name) literal =
            (current variableValues).parse (types.named name) literal) →
              (∀ scalar, types.named name ≠ .scalar scalar) →
                (value = result ↔ ¬Departs types variableValues literal (.named name)) := by
          intro hparse hscalar
          refine iff_of_true ?_ fun hdeparts => ?_
          · exact Option.some.inj (hvalue.symm.trans (hparse.trans hresult))
          · cases hdeparts with
            | field hnamed => exact hleaf _ _ hnamed
            | omitted hnamed => exact hleaf _ _ hnamed
            | scalar hnamed => exact hscalar _ hnamed
        cases hnamed : types.named name with
        | inputObject fieldDefs isOneOf => exact absurd hnamed (hleaf fieldDefs isOneOf)
        | customScalar custom =>
            refine hsame (by rw [hnamed]; rfl) fun scalar hscalar => ?_
            cases hnamed.symm.trans hscalar
        | «enum» values =>
            refine hsame (by rw [hnamed]; rfl) fun scalar hscalar => ?_
            cases hnamed.symm.trans hscalar
        | scalar scalar =>
            rw [hnamed] at hvalue hresult
            refine (scalar_eq_iff hvalue hresult).trans (not_congr ⟨.scalar hnamed, fun h => ?_⟩)
            cases h with
            | field hnamed' => exact absurd hnamed' (hleaf _ _)
            | omitted hnamed' => exact absurd hnamed' (hleaf _ _)
            | scalar hnamed' h =>
                obtain rfl := NamedInputType.scalar.inj (hnamed.symm.trans hnamed')
                exact h

end Comparison

/-! ## Agreement -/

/-- `first: Int = 1` -/
def firstField : InputField integralFloats :=
  { type := .named (str "Int"), default := some (.literal (.int (str "1") none)) }

/-- `input Limit { first: Int = 1 }` -/
def limitTypes : InputTypes integralFloats Empty where
  named name :=
    if name = str "Limit" then .inputObject (Dict.empty.set (str "first") firstField) false
    else .scalar .int

theorem limitTypes_fields {name : Text} {fields : Dict Text (InputField integralFloats)}
    {isOneOf : Bool} (h : limitTypes.named name = .inputObject fields isOneOf) :
    ∀ fieldDef ∈ fields.items, fieldDef.2 = firstField := by
  simp only [limitTypes] at h
  split at h
  · obtain ⟨rfl, -⟩ := NamedInputType.inputObject.inj h
    intro fieldDef hmem
    rw [List.mem_singleton.mp hmem]
  · cases h

theorem limitTypes_built : BuiltFromDefinition limitTypes where
  outName _ _ _ h fieldDef hmem := by rw [limitTypes_fields h fieldDef hmem]; rfl
  defaultValue _ _ _ h fieldDef hmem := by rw [limitTypes_fields h fieldDef hmem]; rfl
  default _ _ _ h fieldDef hmem value := by
    rw [limitTypes_fields h fieldDef hmem]
    exact fun heq => by cases heq
  «enum» name values h := by
    simp only [limitTypes] at h
    split at h <;> cases h
  outType _ _ := rfl

theorem coerceDefaultValue_firstField :
    coerceDefaultValue limitTypes 1 firstField = .ok (some (.int 1)) := by
  rw [coerceDefaultValue]
  simp only [firstField]
  have hnamed : limitTypes.named (str "Int") = .scalar .int := rfl
  rw [coerceInputLiteral_scalar hnamed rfl]
  rfl

theorem limitTypes_valid : ValidDefaults limitTypes (coerceDefaultValue limitTypes 1) := by
  intro name fields isOneOf h fieldDef hmem
  rw [limitTypes_fields h fieldDef hmem]
  exact ⟨_, coerceDefaultValue_firstField⟩

/-- `{ first: 2 }` -/
def firstTwo : ValueNode :=
  .object [⟨{ value := str "first" }, .int (str "2") none, none⟩] none

end GraphqlCore.ValueLiterals
