import GraphqlCore.Utilities.SchemaCompatibility

/-!
# Schemas without breaking changes

If `find_breaking_changes` reports nothing, input that is accepted in the old schema
is accepted in the new one, except for what the function does not compare: defaults
that are removed, types that become OneOf, and the internal values of enums.
-/

namespace GraphqlCore

open Language Execution

/-! ## Differences -/

section Differences

variable {β : Type} {oldDict newDict : Dict Text β} {name : Text} {oldItem newItem : β}

theorem mem_dictDiff_added (hnew : newDict.get name = some newItem)
    (hold : oldDict.get name = none) :
    (name, newItem) ∈ (dictDiff oldDict newDict).added := by
  apply List.mem_filter.mpr
  refine ⟨Dict.mem_items_iff.mpr hnew, ?_⟩
  rw [hold]
  rfl

theorem mem_dictDiff_persisted (hold : oldDict.get name = some oldItem)
    (hnew : newDict.get name = some newItem) :
    (name, oldItem, newItem) ∈ (dictDiff oldDict newDict).persisted := by
  apply List.mem_filterMap.mpr
  refine ⟨(name, oldItem), Dict.mem_items_iff.mpr hold, ?_⟩
  rw [hnew]
  rfl

theorem exists_of_dictDiff_removed (h : (dictDiff oldDict newDict).removed = [])
    (hold : oldDict.get name = some oldItem) :
    ∃ newItem, newDict.get name = some newItem := by
  cases hnew : newDict.get name with
  | some newItem => exact ⟨newItem, rfl⟩
  | none =>
      have hmem : (name, oldItem) ∈ (dictDiff oldDict newDict).removed := by
        apply List.mem_filter.mpr
        refine ⟨Dict.mem_items_iff.mpr hold, ?_⟩
        rw [hnew]
        rfl
      rw [h] at hmem
      cases hmem

end Differences

section ListDifferences

variable {α : Type} {name : α → Text} {oldList newList : List α} {oldItem : α}

theorem itemNamed_spec {items : List α} {itemName : Text} {item : α}
    (h : itemNamed name items itemName = some item) :
    item ∈ items ∧ name item = itemName := by
  constructor
  · exact List.mem_reverse.mp (List.mem_of_find?_eq_some h)
  · unfold itemNamed at h
    simpa using List.find?_some h

theorem exists_of_listDiff_removed (h : (listDiff name oldList newList).removed = [])
    (hmem : oldItem ∈ oldList) :
    ∃ newItem, itemNamed name newList (name oldItem) = some newItem ∧
      (oldItem, newItem) ∈ (listDiff name oldList newList).persisted := by
  cases hnew : itemNamed name newList (name oldItem) with
  | some newItem =>
      refine ⟨newItem, rfl, List.mem_filterMap.mpr ⟨oldItem, hmem, ?_⟩⟩
      rw [hnew]
      rfl
  | none =>
      have hremoved : oldItem ∈ (listDiff name oldList newList).removed := by
        apply List.mem_filter.mpr
        refine ⟨hmem, ?_⟩
        rw [hnew]
        rfl
      rw [h] at hremoved
      cases hremoved

end ListDifferences

/-! ## What no breaking change means -/

/-- No argument or input field of both is required in the second only. -/
def StaysOptional (old new : Dict Text GraphQLArgument) : Prop :=
  ∀ name arg arg', old.get name = some arg → new.get name = some arg' →
    isRequiredArgument arg'.toInputDefinition → isRequiredArgument arg.toInputDefinition

section Inputs

variable {old new : Dict Text GraphQLArgument} {changeType : BreakingChangeType}
variable {owner typeName fieldName : Text}

/-- The three parts in which arguments and input fields are compared. -/
theorem keepsInputs_of_diff (hremoved : (dictDiff old new).removed = [])
    (hsafe : ∀ entry ∈ (dictDiff old new).persisted,
      isChangeSafeForInputObjectFieldOrFieldArg entry.2.1.type entry.2.2.type)
    (hadded : ∀ entry ∈ (dictDiff old new).added,
      isRequiredArgument entry.2.toInputDefinition = false)
    (hoptional : StaysOptional old new) : KeepsInputs old new := by
  constructor
  · intro name arg harg
    obtain ⟨arg', harg'⟩ := exists_of_dictDiff_removed hremoved harg
    exact ⟨arg', harg', hsafe _ (mem_dictDiff_persisted harg harg'),
      hoptional name arg arg' harg harg'⟩
  · exact fun name arg' harg' harg => hadded _ (mem_dictDiff_added harg' harg)

theorem required_of_findRequiredArgsAdded {added : List (Text × GraphQLArgument)}
    (h : findRequiredArgsAdded changeType owner added = []) :
    ∀ entry ∈ added, isRequiredArgument entry.2.toInputDefinition = false := by
  unfold findRequiredArgsAdded at h
  rw [List.map_eq_nil_iff, List.filter_eq_nil_iff] at h
  exact fun entry hmem => Bool.eq_false_iff.mpr (h entry hmem)

theorem safe_of_findArgsChangedKind
    {persisted : List (Text × GraphQLArgument × GraphQLArgument)}
    (h : findArgsChangedKind owner persisted = []) :
    ∀ entry ∈ persisted,
      isChangeSafeForInputObjectFieldOrFieldArg entry.2.1.type entry.2.2.type := by
  unfold findArgsChangedKind at h
  rw [List.map_eq_nil_iff, List.filter_eq_nil_iff] at h
  intro entry hmem
  simpa using h entry hmem

theorem keepsInputs_of_findInputObjectTypeChanges
    (h : findInputObjectTypeChanges typeName old new = [])
    (hoptional : StaysOptional old new) : KeepsInputs old new := by
  unfold findInputObjectTypeChanges fieldsRemoved at h
  simp only [List.append_eq_nil_iff, List.map_eq_nil_iff, List.filter_eq_nil_iff] at h
  obtain ⟨⟨hadded, hremoved⟩, hsafe⟩ := h
  apply keepsInputs_of_diff hremoved _ _ hoptional
  · intro entry hmem
    simpa using hsafe entry hmem
  · exact fun entry hmem => Bool.eq_false_iff.mpr (hadded entry hmem)

theorem keepsInputs_of_findArgChanges {oldField newField : GraphQLField}
    (h : findArgChanges typeName fieldName oldField newField = [])
    (hoptional : StaysOptional oldField.args newField.args) :
    KeepsInputs oldField.args newField.args := by
  unfold findArgChanges findArgsRemoved at h
  simp only [List.append_eq_nil_iff, List.map_eq_nil_iff] at h
  exact keepsInputs_of_diff h.1.1 (safe_of_findArgsChangedKind h.1.2)
    (required_of_findRequiredArgsAdded h.2) hoptional

theorem keepsInputs_of_findDirectiveArgChanges {oldDirective newDirective : GraphQLDirective}
    (h : findDirectiveArgChanges oldDirective newDirective = [])
    (hoptional : StaysOptional oldDirective.args newDirective.args) :
    KeepsInputs oldDirective.args newDirective.args := by
  unfold findDirectiveArgChanges findArgsRemoved at h
  simp only [List.append_eq_nil_iff, List.map_eq_nil_iff] at h
  exact keepsInputs_of_diff h.1.1.1.2 (safe_of_findArgsChangedKind h.1.1.2)
    (required_of_findRequiredArgsAdded h.1.1.1.1) hoptional

end Inputs

section Schemas

variable {old new : GraphQLSchema} {name : Text}

theorem exists_type (h : findBreakingChanges old new = []) {oldType : GraphQLNamedType}
    (hold : old.getType name = some oldType) :
    ∃ newType, new.getType name = some newType ∧
      findNamedTypeChanges name oldType newType = [] := by
  unfold findBreakingChanges findTypeChanges at h
  simp only [List.append_eq_nil_iff, List.map_eq_nil_iff, List.flatMap_eq_nil_iff] at h
  obtain ⟨newType, hnew⟩ := exists_of_dictDiff_removed h.1.1 hold
  exact ⟨newType, hnew, h.1.2 _ (mem_dictDiff_persisted hold hnew)⟩

theorem exists_inputObject (h : findBreakingChanges old new = [])
    {fields : Dict Text GraphQLInputField} {isOneOf : Bool} {description : Option Text}
    (hold : old.getType name = some (.inputObject fields isOneOf description)) :
    ∃ fields' isOneOf' description',
      new.getType name = some (.inputObject fields' isOneOf' description') ∧
      findInputObjectTypeChanges name fields fields' = [] := by
  obtain ⟨newType, hnew, hchanges⟩ := exists_type h hold
  cases newType with
  | inputObject fields' isOneOf' description' => exact ⟨_, _, _, hnew, hchanges⟩
  | scalar | object | interface | union | enum => cases hchanges

theorem exists_scalar (h : findBreakingChanges old new = [])
    {description specifiedByUrl : Option Text}
    (hold : old.getType name = some (.scalar description specifiedByUrl)) :
    ∃ description' specifiedByUrl',
      new.getType name = some (.scalar description' specifiedByUrl') := by
  obtain ⟨newType, hnew, hchanges⟩ := exists_type h hold
  cases newType with
  | scalar => exact ⟨_, _, hnew⟩
  | inputObject | object | interface | union | enum => cases hchanges

theorem exists_enum (h : findBreakingChanges old new = [])
    {values : Dict Text GraphQLEnumValue} {description : Option Text}
    (hold : old.getType name = some (.enum values description)) :
    ∃ values' description', new.getType name = some (.enum values' description') ∧
      ∀ valueName enumValue, values.get valueName = some enumValue →
        ∃ enumValue', values'.get valueName = some enumValue' := by
  obtain ⟨newType, hnew, hchanges⟩ := exists_type h hold
  cases newType with
  | enum values' description' =>
      refine ⟨values', description', hnew, fun valueName enumValue hvalue => ?_⟩
      unfold findNamedTypeChanges findEnumTypeChanges at hchanges
      exact exists_of_dictDiff_removed (List.map_eq_nil_iff.mp hchanges) hvalue
  | inputObject | object | interface | union | scalar => cases hchanges

theorem exists_field_of_findFieldChanges {fields fields' : Dict Text GraphQLField}
    (h : findFieldChanges name fields fields' = []) {fieldName : Text}
    {field : GraphQLField} (hfield : fields.get fieldName = some field) :
    ∃ field', fields'.get fieldName = some field' ∧
      findArgChanges name fieldName field field' = [] := by
  unfold findFieldChanges fieldsRemoved at h
  simp only [List.append_eq_nil_iff, List.map_eq_nil_iff, List.flatMap_eq_nil_iff] at h
  obtain ⟨field', hfield'⟩ := exists_of_dictDiff_removed h.1 hfield
  exact ⟨field', hfield', (h.2 _ (mem_dictDiff_persisted hfield hfield')).1⟩

/-- The fields of an object or interface type are compared. -/
theorem exists_field_of_findNamedTypeChanges {oldType newType : GraphQLNamedType}
    (h : findNamedTypeChanges name oldType newType = []) {fieldName : Text}
    {field : GraphQLField} (hfield : oldType.fields.get fieldName = some field) :
    ∃ field', newType.fields.get fieldName = some field' ∧
      findArgChanges name fieldName field field' = [] := by
  cases oldType with
  | scalar | union | enum | inputObject => simp [GraphQLNamedType.fields] at hfield
  | object fields interfaces =>
      cases newType with
      | object fields' interfaces' =>
          have hchanges : findFieldChanges name fields fields' ++
            findImplementedInterfacesChanges name interfaces interfaces' = [] := h
          rw [List.append_eq_nil_iff] at hchanges
          exact exists_field_of_findFieldChanges hchanges.1 hfield
      | scalar | interface | union | enum | inputObject => cases h
  | interface fields interfaces =>
      cases newType with
      | interface fields' interfaces' =>
          have hchanges : findFieldChanges name fields fields' ++
            findImplementedInterfacesChanges name interfaces interfaces' = [] := h
          rw [List.append_eq_nil_iff] at hchanges
          exact exists_field_of_findFieldChanges hchanges.1 hfield
      | scalar | object | union | enum | inputObject => cases h

theorem exists_field (h : findBreakingChanges old new = []) {fieldName : Text}
    {field : GraphQLField} (hfield : (old.fieldsOf name).get fieldName = some field) :
    ∃ field', (new.fieldsOf name).get fieldName = some field' ∧
      findArgChanges name fieldName field field' = [] := by
  unfold GraphQLSchema.fieldsOf at hfield ⊢
  cases hold : old.getType name with
  | none =>
      rw [hold] at hfield
      cases hfield
  | some oldType =>
      rw [hold] at hfield
      obtain ⟨newType, hnew, hchanges⟩ := exists_type h hold
      rw [hnew]
      exact exists_field_of_findNamedTypeChanges hchanges hfield

theorem exists_directive (h : findBreakingChanges old new = [])
    {directive : GraphQLDirective} (hmem : directive ∈ old.directives) :
    ∃ directive' ∈ new.directives, directive'.name = directive.name ∧
      findDirectiveArgChanges directive directive' = [] := by
  unfold findBreakingChanges findDirectiveChanges at h
  simp only [List.append_eq_nil_iff, List.map_eq_nil_iff, List.flatMap_eq_nil_iff] at h
  obtain ⟨directive', hnew, hpersisted⟩ := exists_of_listDiff_removed h.2.1 hmem
  obtain ⟨hmem', hname⟩ := itemNamed_spec hnew
  have hchanges := h.2.2 (directive, directive') hpersisted
  exact ⟨directive', hmem', hname, hchanges⟩

end Schemas

/-! ## What is not compared -/

/-- What `find_breaking_changes` does not compare: no argument or input field becomes
required by losing its default, no input object becomes a OneOf object, and no enum
value gets the internal value `Undefined` or `None`. -/
structure KeepsUncompared (old new : InputTypes) : Prop where
  inputFields : ∀ name fields isOneOf description fields' isOneOf' description',
    old.schema.getType name = some (.inputObject fields isOneOf description) →
    new.schema.getType name = some (.inputObject fields' isOneOf' description') →
    StaysOptional fields fields' ∧ (isOneOf' → isOneOf)
  fieldArgs : ∀ name fieldName field field',
    (old.schema.fieldsOf name).get fieldName = some field →
    (new.schema.fieldsOf name).get fieldName = some field' →
    StaysOptional field.args field'.args
  directiveArgs : ∀ directive ∈ old.schema.directives,
    ∀ directive' ∈ new.schema.directives, directive'.name = directive.name →
    StaysOptional directive.args directive'.args
  enumValues : ∀ name values description values' description',
    old.schema.getType name = some (.enum values description) →
    new.schema.getType name = some (.enum values' description') →
    ∀ valueName enumValue enumValue', values.get valueName = some enumValue →
      values'.get valueName = some enumValue' → ∀ value, enumValue.value = some value →
      ∃ value', enumValue'.value = some value' ∧ (value' = .none → value = .none)

/-- Scalars of the same name coerce alike. -/
structure ScalarsAlike (old new : InputTypes) : Prop where
  values : ∀ name description specifiedByUrl description' specifiedByUrl',
    old.schema.getType name = some (.scalar description specifiedByUrl) →
    new.schema.getType name = some (.scalar description' specifiedByUrl') →
    ∀ value, leafInputValue old name value = leafInputValue new name value
  literals : ∀ name description specifiedByUrl description' specifiedByUrl',
    old.schema.getType name = some (.scalar description specifiedByUrl) →
    new.schema.getType name = some (.scalar description' specifiedByUrl') →
    ∀ valueNode variableValues fragmentVariableValues,
      leafInputLiteral old name valueNode variableValues fragmentVariableValues =
        leafInputLiteral new name valueNode variableValues fragmentVariableValues

section Enums

variable {name : Text} {values : Dict Text GraphQLEnumValue} {result : Value}

theorem enumOutcome_eq_value_iff {enumValue : GraphQLEnumValue} :
    enumOutcome enumValue = .value result ↔ enumValue.value = some result := by
  unfold enumOutcome
  cases enumValue.value <;> simp

theorem enumCoerceInputValue_eq_value_iff {value : Value} :
    enumCoerceInputValue name values value = .value result ↔
      ∃ valueName enumValue, value = .str valueName ∧
        values.get valueName = some enumValue ∧ enumValue.value = some result := by
  unfold enumCoerceInputValue
  split
  · next valueName =>
      cases hget : values.get valueName with
      | none => simp [hget]
      | some enumValue => simp [hget, enumOutcome_eq_value_iff]
  · next hstr =>
      constructor
      · exact fun h => nomatch h
      · rintro ⟨valueName, _, rfl, _⟩
        exact absurd rfl (hstr valueName)

theorem enumCoerceInputLiteral_eq_value_iff {valueNode : ValueNode} :
    enumCoerceInputLiteral name values valueNode = .value result ↔
      ∃ valueName loc enumValue, valueNode = .enum valueName loc ∧
        values.get valueName = some enumValue ∧ enumValue.value = some result := by
  unfold enumCoerceInputLiteral
  split
  · next valueName loc =>
      cases hget : values.get valueName with
      | none => simp [hget]
      | some enumValue => simp [hget, enumOutcome_eq_value_iff]
  · next henum =>
      constructor
      · exact fun h => nomatch h
      · rintro ⟨valueName, loc, _, rfl, _⟩
        exact absurd rfl (henum valueName loc)

/-- Variables are not replaced by enum literals within other literals. -/
theorem replaceVariables_eq_enum {types : InputTypes} {valueNode : ValueNode}
    {variableValues : Option VariableValues}
    {fragmentVariableValues : Option FragmentVariableValues} {valueName : Text}
    {loc : Option Location} (hplain : IsPlain valueNode)
    (h : replaceVariables types valueNode variableValues fragmentVariableValues =
      .ok (.enum valueName loc)) : valueNode = .enum valueName loc := by
  cases valueNode with
  | «variable» node => exact absurd rfl (hplain.ne_variable node)
  | object =>
      rw [replaceVariables] at h
      obtain ⟨fields, _, heq⟩ := bind_eq_ok.mp h
      cases heq
  | list =>
      rw [replaceVariables] at h
      obtain ⟨items, _, heq⟩ := bind_eq_ok.mp h
      cases heq
  | int | float | string | boolean | null | enum =>
      rw [replaceVariables] at h
      · exact Except.ok.inj h
      · exact fun _ heq => by cases heq
      · exact fun _ _ heq => by cases heq
      · exact fun _ _ heq => by cases heq

theorem replaceVariables_enum {types : InputTypes} {valueName : Text}
    {loc : Option Location} {variableValues : Option VariableValues}
    {fragmentVariableValues : Option FragmentVariableValues} :
    replaceVariables types (.enum valueName loc) variableValues fragmentVariableValues =
      .ok (.enum valueName loc) := by
  rw [replaceVariables]
  · exact fun _ heq => by cases heq
  · exact fun _ _ heq => by cases heq
  · exact fun _ _ heq => by cases heq

end Enums

section NoBreakingChange

variable {old new : InputTypes}

theorem leafValues_of_noBreakingChange
    (h : findBreakingChanges old.schema new.schema = []) (hscalars : ScalarsAlike old new)
    (huncompared : KeepsUncompared old new) {name : Text} {value result : Value}
    (hresult : leafInputValue old name value = some (.value result)) :
    ∃ result', leafInputValue new name value = some (.value result') ∧
      (result' = .none → result = .none) := by
  cases htype : old.schema.getType name with
  | none =>
      unfold leafInputValue at hresult
      rw [htype] at hresult
      cases hresult
  | some oldType =>
      cases oldType with
      | object | interface | union | inputObject =>
          unfold leafInputValue at hresult
          rw [htype] at hresult
          cases hresult
      | scalar description specifiedByUrl =>
          obtain ⟨description', specifiedByUrl', htype'⟩ := exists_scalar h htype
          rw [hscalars.values name _ _ _ _ htype htype'] at hresult
          exact ⟨result, hresult, id⟩
      | enum values description =>
          obtain ⟨values', description', htype', hvalues⟩ := exists_enum h htype
          unfold leafInputValue at hresult ⊢
          simp only [htype, htype', Option.some.injEq] at hresult ⊢
          obtain ⟨valueName, enumValue, hstr, hget, hvalue⟩ :=
            enumCoerceInputValue_eq_value_iff.mp hresult
          obtain ⟨enumValue', hget'⟩ := hvalues valueName enumValue hget
          obtain ⟨result', hvalue', himp⟩ := huncompared.enumValues name _ _ _ _ htype
            htype' valueName enumValue enumValue' hget hget' result hvalue
          exact ⟨result', enumCoerceInputValue_eq_value_iff.mpr
            ⟨valueName, enumValue', hstr, hget', hvalue'⟩, himp⟩

theorem leafLiterals_of_noBreakingChange
    (h : findBreakingChanges old.schema new.schema = []) (hscalars : ScalarsAlike old new)
    (huncompared : KeepsUncompared old new) {name : Text} {valueNode : ValueNode}
    {variableValues : Option VariableValues}
    {fragmentVariableValues : Option FragmentVariableValues} {result : Value}
    (hplain : IsPlain valueNode)
    (hresult : leafInputLiteral old name valueNode variableValues fragmentVariableValues =
      some (.value result)) :
    ∃ result', leafInputLiteral new name valueNode variableValues
        fragmentVariableValues = some (.value result') ∧
      (result' = .none → result = .none) := by
  cases htype : old.schema.getType name with
  | none =>
      unfold leafInputLiteral at hresult
      rw [htype] at hresult
      cases hresult
  | some oldType =>
      cases oldType with
      | object | interface | union | inputObject =>
          unfold leafInputLiteral at hresult
          rw [htype] at hresult
          cases hresult
      | scalar description specifiedByUrl =>
          obtain ⟨description', specifiedByUrl', htype'⟩ := exists_scalar h htype
          rw [hscalars.literals name _ _ _ _ htype htype'] at hresult
          exact ⟨result, hresult, id⟩
      | enum values description =>
          obtain ⟨values', description', htype', hvalues⟩ := exists_enum h htype
          unfold leafInputLiteral at hresult ⊢
          simp only [htype, htype', Option.some.injEq] at hresult ⊢
          split at hresult
          · next constant hconstant =>
              obtain ⟨valueName, loc, enumValue, rfl, hget, hvalue⟩ :=
                enumCoerceInputLiteral_eq_value_iff.mp hresult
              obtain rfl := replaceVariables_eq_enum hplain hconstant
              obtain ⟨enumValue', hget'⟩ := hvalues valueName enumValue hget
              obtain ⟨result', hvalue', himp⟩ := huncompared.enumValues name _ _ _ _
                htype htype' valueName enumValue enumValue' hget hget' result hvalue
              refine ⟨result', ?_, himp⟩
              rw [replaceVariables_enum]
              exact enumCoerceInputLiteral_eq_value_iff.mpr
                ⟨valueName, loc, enumValue', rfl, hget', hvalue'⟩
          · cases hresult

/-- Without breaking changes the input types are kept. -/
theorem keepsInputTypes_of_noBreakingChange
    (h : findBreakingChanges old.schema new.schema = []) (hscalars : ScalarsAlike old new)
    (huncompared : KeepsUncompared old new) : KeepsInputTypes old new := by
  constructor
  · intro name fields isOneOf description htype
    obtain ⟨fields', isOneOf', description', htype', hchanges⟩ :=
      exists_inputObject h htype
    obtain ⟨hoptional, honeOf⟩ :=
      huncompared.inputFields name _ _ _ _ _ _ htype htype'
    exact ⟨fields', isOneOf', description', htype',
      keepsInputs_of_findInputObjectTypeChanges hchanges hoptional, honeOf⟩
  · intro name value result hresult
    exact leafValues_of_noBreakingChange h hscalars huncompared hresult
  · intro name valueNode variableValues fragmentVariableValues result hplain hresult
    exact leafLiterals_of_noBreakingChange h hscalars huncompared hplain hresult

end NoBreakingChange

/-- What schema validation ensures of input types and arguments. -/
structure ValidInput (types : InputTypes) (depth : ℕ) : Prop where
  inputTypes : ValidInputTypes types depth
  fieldArgs : ∀ name fieldName field,
    (types.schema.fieldsOf name).get fieldName = some field →
    ValidArguments types depth field.args
  directiveArgs : ∀ directive ∈ types.schema.directives,
    ValidArguments types depth directive.args

/-- **Input stays accepted.**  Without breaking changes, and where nothing else is lost
that is not compared, the values that a named input type accepts and the arguments that
a field or directive accepts stay accepted. -/
theorem findBreakingChanges_sound {old new : InputTypes} {depth depth' : ℕ}
    (hold : ValidInput old depth) (hnew : ValidInput new depth')
    (h : findBreakingChanges old.schema new.schema = [])
    (hscalars : ScalarsAlike old new) (huncompared : KeepsUncompared old new) :
    (∀ name value, old.schema.isInputType (.named name) →
      new.schema.isInputType (.named name) →
      (∃ result, GraphqlCore.coerceInputValue old (GraphqlCore.coerceDefaultValue old depth)
        value (.named name) = .ok result) →
      ∃ result, GraphqlCore.coerceInputValue new
        (GraphqlCore.coerceDefaultValue new depth') value (.named name) = .ok result) ∧
    (∀ name fieldName field, (old.schema.fieldsOf name).get fieldName = some field →
      ∃ field', (new.schema.fieldsOf name).get fieldName = some field' ∧
        ∀ variableValues fragmentVariableValues arguments,
          AcceptsArguments old depth variableValues fragmentVariableValues field.args
            arguments →
          AcceptsArguments new depth' variableValues fragmentVariableValues field'.args
            arguments) ∧
    (∀ directive ∈ old.schema.directives, ∃ directive' ∈ new.schema.directives,
      directive'.name = directive.name ∧
        ∀ variableValues fragmentVariableValues arguments,
          AcceptsArguments old depth variableValues fragmentVariableValues directive.args
            arguments →
          AcceptsArguments new depth' variableValues fragmentVariableValues
            directive'.args arguments) := by
  have hkeeps := keepsInputTypes_of_noBreakingChange h hscalars huncompared
  refine ⟨?_, ?_, ?_⟩
  · rintro name value hinput hinput' ⟨result, hresult⟩
    have hcoercible :=
      (coerceInputValue_settles hold.inputTypes value (.named name) hinput).of_ok hresult
    have hsafe : isChangeSafeForInputObjectFieldOrFieldArg (.named name) (.named name) =
        true := decide_eq_true rfl
    exact (coerceInputValue_settles hnew.inputTypes value (.named name) hinput').exists_ok
      (hkeeps.coercible hsafe hcoercible)
  · intro name fieldName field hfield
    obtain ⟨field', hfield', hchanges⟩ := exists_field h hfield
    have hkept := keepsInputs_of_findArgChanges hchanges
      (huncompared.fieldArgs name fieldName field field' hfield hfield')
    exact ⟨field', hfield', fun _ _ _ haccepts => hkeeps.acceptsArguments hkept
      hold.inputTypes (hold.fieldArgs name fieldName field hfield) hnew.inputTypes
      (hnew.fieldArgs name fieldName field' hfield') haccepts⟩
  · intro directive hmem
    obtain ⟨directive', hmem', hname, hchanges⟩ := exists_directive h hmem
    have hkept := keepsInputs_of_findDirectiveArgChanges hchanges
      (huncompared.directiveArgs directive hmem directive' hmem' hname)
    exact ⟨directive', hmem', hname, fun _ _ _ haccepts => hkeeps.acceptsArguments hkept
      hold.inputTypes (hold.directiveArgs directive hmem) hnew.inputTypes
      (hnew.directiveArgs directive' hmem') haccepts⟩

/-! ## Checking the assumptions -/

section Checks

variable {types old new : InputTypes} {depth : ℕ}

def checkArguments (types : InputTypes) (depth : ℕ) (args : Dict Text GraphQLArgument) :
    Bool :=
  args.values.all fun arg => types.schema.isInputType arg.type &&
    (GraphqlCore.coerceDefaultValue types (depth + 1) arg.toInputDefinition).isOk

theorem validArguments_of_check {args : Dict Text GraphQLArgument}
    (h : checkArguments types depth args = true) : ValidArguments types depth args := by
  intro name arg harg
  have hmem : arg ∈ args.values := List.mem_map_of_mem (Dict.mem_items_iff.mpr harg)
  have hcheck := List.all_eq_true.mp h arg hmem
  rw [Bool.and_eq_true] at hcheck
  refine ⟨hcheck.1, ?_⟩
  cases hvalue : GraphqlCore.coerceDefaultValue types (depth + 1)
      arg.toInputDefinition with
  | ok value => exact ⟨value, rfl⟩
  | error stop =>
      rw [hvalue] at hcheck
      cases hcheck.2

theorem validInput_of_check
    (htypes : types.schema.typeMap.values.all (checkInputType types depth) = true)
    (hfields : types.schema.typeMap.values.all (fun type =>
      type.fields.values.all fun field => checkArguments types depth field.args) = true)
    (hdirectives : types.schema.directives.all (fun directive =>
      checkArguments types depth directive.args) = true) : ValidInput types depth := by
  constructor
  · exact validInputTypes_of_check htypes
  · intro name fieldName field hfield
    unfold GraphQLSchema.fieldsOf at hfield
    cases htype : types.schema.getType name with
    | none =>
        rw [htype] at hfield
        simp at hfield
    | some type =>
        rw [htype, Option.map_some, Option.getD_some] at hfield
        have hcheck := List.all_eq_true.mp hfields type
          (List.mem_map_of_mem (Dict.mem_items_iff.mpr htype))
        exact validArguments_of_check (List.all_eq_true.mp hcheck field
          (List.mem_map_of_mem (Dict.mem_items_iff.mpr hfield)))
  · exact fun directive hmem =>
      validArguments_of_check (List.all_eq_true.mp hdirectives directive hmem)

/-- Scalars that bring the same functions coerce alike. -/
theorem scalarsAlike_of_eq (hscalars : old.scalars = new.scalars)
    (hliteral : old.valueToLiteral = new.valueToLiteral) : ScalarsAlike old new := by
  constructor
  · intro name _ _ _ _ htype htype' value
    unfold leafInputValue
    rw [htype, htype', hscalars]
  · intro name _ _ _ _ htype htype' valueNode variableValues fragmentVariableValues
    unfold leafInputLiteral
    simp only [htype, htype', hscalars, replaceVariables_congr hliteral]

end Checks

/-! ## Changes that are not compared -/

/-- The type of the specification, which only takes strings. -/
def stringCoercion : ScalarCoercion where
  coerceInputValue
    | .str value => .value (.str value)
    | _ => .graphQLError (str "String cannot represent a non string value")
  coerceInputLiteral := some fun
    | .string node => .value (.str node.value)
    | _ => .graphQLError (str "String cannot represent a non string value")
  parseLiteral _ _ := .undefined

def string : GraphQLType := .named (str "String")

/-- An argument or input field `x: String!` with the given default value. -/
def requiredX (defaultValue : Option Value) : Dict Text GraphQLArgument :=
  Dict.empty.set (str "x") { type := .nonNull string, defaultValue := defaultValue }

def levelField : Dict Text GraphQLInputField :=
  Dict.empty.set (str "level") { type := .named (str "Level") }

/-- A schema with the query field `f(x: String!)`, the input objects `Point` with `x` and
`Choice` with `level: Level`, and the enum `Level` with the value `HIGH`. -/
def settingsTypes (defaultValue : Option Value) (isOneOf : Bool) (high : Option Value) :
    InputTypes where
  schema := {
    typeMap := ⟨[
      (str "String", .scalar),
      (str "Level", .enum (Dict.empty.set (str "HIGH") { value := high })),
      (str "Point", .inputObject (requiredX defaultValue)),
      (str "Choice", .inputObject levelField isOneOf),
      (str "Query", .object (Dict.empty.set (str "f")
        { type := string, args := requiredX defaultValue }) [])],
      by simp only [List.map_cons, List.map_nil]; decide⟩
    queryType := some (str "Query") }
  scalars := fun _ => stringCoercion
  valueToLiteral := fun _ _ => .error []

/-- The default value is `"a"`, no type is a OneOf type, and `HIGH` stands for 9. -/
def oldSettings : InputTypes := settingsTypes (some (.str (str "a"))) false (some (.int 9))

/-- The default value is `"b"`, and `HIGH` stands for 10. -/
def newSettings : InputTypes := settingsTypes (some (.str (str "b"))) false (some (.int 10))

/-- There is no default value, `Choice` is a OneOf type, and `HIGH` stands for
`Undefined`. -/
def lossySettings : InputTypes := settingsTypes none true none

theorem oldSettings_valid : ValidInput oldSettings 1 :=
  validInput_of_check (by decide +kernel) (by decide +kernel) (by decide +kernel)

theorem newSettings_valid : ValidInput newSettings 1 :=
  validInput_of_check (by decide +kernel) (by decide +kernel) (by decide +kernel)

theorem lossySettings_valid : ValidInput lossySettings 1 :=
  validInput_of_check (by decide +kernel) (by decide +kernel) (by decide +kernel)

/-- Where no argument is required, none becomes so. -/
theorem staysOptional_of_check {old new : Dict Text GraphQLArgument}
    (h : new.values.all (fun arg => !isRequiredArgument arg.toInputDefinition) = true) :
    StaysOptional old new := by
  intro name arg arg' _ harg' hrequired
  have hcheck := List.all_eq_true.mp h arg'
    (List.mem_map_of_mem (Dict.mem_items_iff.mpr harg'))
  rw [hrequired] at hcheck
  cases hcheck

theorem newSettings_field {name fieldName : Text} {field : GraphQLField}
    (h : (newSettings.schema.fieldsOf name).get fieldName = some field) :
    field.args = requiredX (some (.str (str "b"))) := by
  unfold GraphQLSchema.fieldsOf at h
  cases htype : newSettings.schema.getType name with
  | none =>
      rw [htype] at h
      simp at h
  | some type =>
      have hmem := Dict.mem_items_iff.mpr htype
      simp only [newSettings, settingsTypes, List.mem_cons, Prod.mk.injEq,
        List.not_mem_nil, or_false] at hmem
      rw [htype, Option.map_some, Option.getD_some] at h
      rcases hmem with ⟨_, rfl⟩ | ⟨_, rfl⟩ | ⟨_, rfl⟩ | ⟨_, rfl⟩ | ⟨_, rfl⟩
      · simp [GraphQLNamedType.fields] at h
      · simp [GraphQLNamedType.fields] at h
      · simp [GraphQLNamedType.fields] at h
      · simp [GraphQLNamedType.fields] at h
      · rw [GraphQLNamedType.fields, Dict.get_set] at h
        split at h
        · cases h
          rfl
        · simp at h

theorem settings_uncompared : KeepsUncompared oldSettings newSettings := by
  constructor
  · intro name fields isOneOf description fields' isOneOf' description' _ htype'
    have hmem := Dict.mem_items_iff.mpr htype'
    simp [newSettings, settingsTypes] at hmem
    rcases hmem with ⟨_, rfl, rfl, _⟩ | ⟨_, rfl, rfl, _⟩
    · exact ⟨staysOptional_of_check (by decide +kernel), fun h => by cases h⟩
    · exact ⟨staysOptional_of_check (by decide +kernel), fun h => by cases h⟩
  · intro name fieldName field field' _ hfield'
    rw [newSettings_field hfield']
    exact staysOptional_of_check (by decide +kernel)
  · exact fun directive hmem => by cases hmem
  · intro name values description values' description' _ htype' valueName _ enumValue' _
      hvalue' _ _
    have hmem := Dict.mem_items_iff.mpr htype'
    simp [newSettings, settingsTypes] at hmem
    obtain ⟨_, rfl, _⟩ := hmem
    rw [Dict.get_set] at hvalue'
    split at hvalue'
    · cases hvalue'
      exact ⟨.int 10, rfl, fun h => by cases h⟩
    · simp at hvalue'

theorem oldPoint_coerced :
    GraphqlCore.coerceInputValue oldSettings (GraphqlCore.coerceDefaultValue oldSettings 1)
      (.dict []) (.named (str "Point")) = .ok (.dict [(str "x", .str (str "a"))]) := by
  have htype : oldSettings.schema.getType (str "Point") =
    some (.inputObject (requiredX (some (.str (str "a"))))) := rfl
  rw [coerceInputValue_object htype]
  rfl

theorem oldChoice_coerced :
    GraphqlCore.coerceInputValue oldSettings (GraphqlCore.coerceDefaultValue oldSettings 1)
      (.dict []) (.named (str "Choice")) = .ok (.dict []) := by
  have htype : oldSettings.schema.getType (str "Choice") =
    some (.inputObject levelField) := rfl
  rw [coerceInputValue_object htype]
  rfl

theorem level_coerced (types : InputTypes) {high : Option Value}
    (htype : types.schema.getType (str "Level") =
      some (.enum (Dict.empty.set (str "HIGH") { value := high })))
    (coerceDefault : DefaultCoercion) :
    GraphqlCore.coerceInputValue types coerceDefault (.str (str "HIGH"))
      (.named (str "Level")) = finishLeaf (str "Level") (some (enumOutcome { value := high })) := by
  rw [coerceInputValue_leaf (by simp) (by simp [htype]), leafInputValue, htype]
  rfl

theorem lossyPoint_undefined :
    GraphqlCore.coerceInputValue lossySettings
      (GraphqlCore.coerceDefaultValue lossySettings 1) (.dict []) (.named (str "Point")) =
        .error .undefined := by
  have htype : lossySettings.schema.getType (str "Point") =
    some (.inputObject (requiredX none)) := rfl
  rw [coerceInputValue_object htype]
  rfl

theorem lossyChoice_undefined :
    GraphqlCore.coerceInputValue lossySettings
      (GraphqlCore.coerceDefaultValue lossySettings 1) (.dict []) (.named (str "Choice")) =
        .error .undefined := by
  have htype : lossySettings.schema.getType (str "Choice") =
    some (.inputObject levelField true) := rfl
  rw [coerceInputValue_object htype]
  rfl

/-- The object `{}` stays a `Point`. -/
theorem settings_accepted :
    ∃ result, GraphqlCore.coerceInputValue newSettings
      (GraphqlCore.coerceDefaultValue newSettings 1) (.dict []) (.named (str "Point")) =
        .ok result := by
  have haccepted := findBreakingChanges_sound oldSettings_valid newSettings_valid
    (by decide +kernel) (scalarsAlike_of_eq rfl rfl) settings_uncompared
  apply haccepted.1 (str "Point") (.dict []) (by decide +kernel) (by decide +kernel)
  exact ⟨.dict [(str "x", .str (str "a"))], oldPoint_coerced⟩

/-- No change to `lossySettings` is a breaking change, but `{}` is neither a `Point` nor
a `Choice` any more, `"HIGH"` no `Level`, and the field `f` needs an argument. -/
theorem lossySettings_rejects :
    ValidInput oldSettings 1 ∧ ValidInput lossySettings 1 ∧
    ScalarsAlike oldSettings lossySettings ∧
    findBreakingChanges oldSettings.schema lossySettings.schema = [] ∧
    (∀ input ∈ [(str "Point", Value.dict []), (str "Choice", .dict []),
        (str "Level", .str (str "HIGH"))],
      (∃ result, GraphqlCore.coerceInputValue oldSettings
        (GraphqlCore.coerceDefaultValue oldSettings 1) input.2 (.named input.1) =
          .ok result) ∧
      GraphqlCore.coerceInputValue lossySettings
        (GraphqlCore.coerceDefaultValue lossySettings 1) input.2 (.named input.1) =
          .error .undefined) ∧
    AcceptsArguments oldSettings 1 none none (requiredX (some (.str (str "a")))) [] ∧
    ¬ AcceptsArguments lossySettings 1 none none (requiredX none) [] := by
  refine ⟨oldSettings_valid, lossySettings_valid, scalarsAlike_of_eq rfl rfl,
    by decide +kernel, ?_, ?_, ?_⟩
  · intro input hmem
    simp only [List.mem_cons, List.not_mem_nil, or_false] at hmem
    rcases hmem with rfl | rfl | rfl
    · exact ⟨⟨_, oldPoint_coerced⟩, lossyPoint_undefined⟩
    · exact ⟨⟨_, oldChoice_coerced⟩, lossyChoice_undefined⟩
    · exact ⟨⟨.int 9, level_coerced oldSettings rfl _⟩, level_coerced lossySettings rfl _⟩
  · exact ⟨fun _ hmem => absurd hmem List.not_mem_nil, _, rfl⟩
  · rintro ⟨_, coercedValues, h⟩
    cases h

end GraphqlCore
