import GraphqlCore.Language.ValueRoundTrip
import GraphqlCore.Utilities.LiteralConverters

/-!
# Printed literals

The way of a value through a schema text: `value_to_literal`, `print_ast`, `parse_const_value`
and the coercion of what was parsed.  A literal is coerced as without its locations, so that
what is parsed has the meaning of what was printed.
-/

namespace GraphqlCore.ValueLiterals

open Language

variable {floats : FloatFormat}

/-! ## Locations have no meaning -/

section Locations

variable {types : InputTypes floats Empty} {variableValues : Variables floats}
  {coerceDefault : DefaultCoercion floats}

theorem isMissingVariable_unlocated (literal : ValueNode) :
    isMissingVariable variableValues literal.unlocated =
      isMissingVariable variableValues literal := by
  cases literal <;> rfl

theorem isPresent_unlocated (literal : ValueNode) :
    isPresent literal.unlocated = isPresent literal := by
  cases literal <;> rfl

theorem isPlain_unlocated (literal : ValueNode) :
    isPlain literal.unlocated = isPlain literal := by
  cases literal <;> rfl

/-- The nodes of a dictionary of fields, without locations. -/
def unlocatedNodes (nodes : List (Text × ValueNode)) : List (Text × ValueNode) :=
  nodes.map fun node => (node.1, node.2.unlocated)

theorem foldl_unlocatedFields (fields : List ObjectFieldNode) (nodes : List (Text × ValueNode)) :
    (unlocatedFields fields).foldl addFieldNode (unlocatedNodes nodes) =
      unlocatedNodes (fields.foldl addFieldNode nodes) := by
  induction fields generalizing nodes with
  | nil => rfl
  | cons field fields ih =>
      obtain ⟨name, value, loc⟩ := field
      rw [unlocatedFields, List.foldl_cons, List.foldl_cons, ← ih]
      exact congrArg (fun nodes => List.foldl addFieldNode nodes _)
        (Dict.map_store ValueNode.unlocated _ _ _).symm

theorem fieldNodes_unlocated (fields : List ObjectFieldNode) :
    fieldNodes (unlocatedFields fields) = unlocatedNodes (fieldNodes fields) :=
  foldl_unlocatedFields fields []

theorem find_unlocatedNodes (name : Text) (nodes : List (Text × ValueNode)) :
    Dict.find name (unlocatedNodes nodes) = (Dict.find name nodes).map ValueNode.unlocated :=
  Dict.find_map ValueNode.unlocated name nodes

theorem scalar_unlocated (scalar : SpecifiedScalar) (literal : ValueNode) :
    (scalar.coerceInputLiteral literal.unlocated : Option (HostValue floats)) =
      scalar.coerceInputLiteral literal := by
  cases scalar <;> cases literal <;> rfl

theorem enum_unlocated (values : Dict Text (HostValue floats)) (literal : ValueNode) :
    enumCoerceInputLiteral values literal.unlocated = enumCoerceInputLiteral values literal := by
  cases literal <;> rfl

theorem isOneOfLiteral_unlocated (fieldDefs : Dict Text (InputField floats))
    (nodes : List (Text × ValueNode)) (coercedDict : List (Text × HostValue floats)) :
    isOneOfLiteral fieldDefs (unlocatedNodes nodes) coercedDict =
      isOneOfLiteral fieldDefs nodes coercedDict := by
  rcases nodes with _ | ⟨⟨name, literal⟩, _ | ⟨_, _⟩⟩
  · rfl
  · rcases coercedDict with _ | ⟨_, _ | ⟨_, _⟩⟩ <;> cases literal <;> rfl
  · simp [isOneOfLiteral, unlocatedNodes]

theorem coerceItemNodes_unlocated {values : List ValueNode} {itemType : GraphQLType}
    (h : ∀ value ∈ values,
      coerceInputLiteral types variableValues coerceDefault value.unlocated itemType =
        coerceInputLiteral types variableValues coerceDefault value itemType) :
    coerceItemNodes types variableValues coerceDefault (unlocatedValues values) itemType =
      coerceItemNodes types variableValues coerceDefault values itemType := by
  induction values with
  | nil => rfl
  | cons value values ih =>
      obtain ⟨hvalue, hvalues⟩ := List.forall_mem_cons.mp h
      rw [unlocatedValues, coerceItemNodes, coerceItemNodes, isMissingVariable_unlocated, hvalue,
        ih hvalues]

theorem coerceFieldNodes_unlocated {nodes : List (Text × ValueNode)}
    {fields : List (Text × InputField floats)}
    (h : ∀ fieldDef ∈ fields, ∀ literal, Dict.find fieldDef.1 nodes = some literal →
      coerceInputLiteral types variableValues coerceDefault literal.unlocated fieldDef.2.type =
        coerceInputLiteral types variableValues coerceDefault literal fieldDef.2.type)
    (coercedDict : List (Text × HostValue floats)) :
    coerceFieldNodes types variableValues coerceDefault (unlocatedNodes nodes) fields
        coercedDict =
      coerceFieldNodes types variableValues coerceDefault nodes fields coercedDict := by
  induction fields generalizing coercedDict with
  | nil => rw [coerceFieldNodes, coerceFieldNodes]
  | cons fieldDef rest ih =>
      obtain ⟨fieldName, field⟩ := fieldDef
      obtain ⟨hfield, hrest⟩ := List.forall_mem_cons.mp h
      by_cases habsent : ∀ literal, Dict.find fieldName nodes = some literal →
          isMissingVariable variableValues literal = true
      · have habsent' : ∀ literal, Dict.find fieldName (unlocatedNodes nodes) = some literal →
            isMissingVariable variableValues literal = true := by
          intro literal hfind
          rw [find_unlocatedNodes] at hfind
          obtain ⟨source, hsource, rfl⟩ := Option.map_eq_some_iff.mp hfind
          rw [isMissingVariable_unlocated]
          exact habsent source hsource
        rw [coerceFieldNodes_absent habsent, coerceFieldNodes_absent habsent']
        exact bind_congr fun value => ih hrest _
      · simp only [not_forall, Bool.not_eq_true] at habsent
        obtain ⟨literal, hfind, hmissing⟩ := habsent
        have hfind' : Dict.find fieldName (unlocatedNodes nodes) = some literal.unlocated := by
          rw [find_unlocatedNodes, hfind]
          rfl
        rw [coerceFieldNodes_given hfind hmissing, coerceFieldNodes_given hfind'
          ((isMissingVariable_unlocated literal).trans hmissing), hfield literal hfind]
        exact bind_congr fun value => ih hrest _

/-- A literal is coerced as without its locations. -/
theorem coerceInputLiteral_unlocated (literal : ValueNode) (type : GraphQLType) :
    coerceInputLiteral types variableValues coerceDefault literal.unlocated type =
      coerceInputLiteral types variableValues coerceDefault literal type := by
  induction literal, type using literal_induction types with
  | «variable» node type =>
      rw [ValueNode.unlocated, coerceInputLiteral_variable, coerceInputLiteral_variable]
      rfl
  | null loc type => rw [ValueNode.unlocated, coerceInputLiteral_null, coerceInputLiteral_null]
  | nonNull literal ofType hpresent ih =>
      rw [coerceInputLiteral_nonNull hpresent, ← ih,
        coerceInputLiteral_nonNull ((isPresent_unlocated literal).trans hpresent)]
  | list values loc itemType ih =>
      rw [ValueNode.unlocated, coerceInputLiteral_list, coerceInputLiteral_list,
        coerceItemNodes_unlocated ih]
  | single literal itemType hplain ih =>
      rw [coerceInputLiteral_single hplain, ← ih,
        coerceInputLiteral_single ((isPlain_unlocated literal).trans hplain)]
  | object fields loc name fieldDefs isOneOf hnamed ih =>
      have hunknown : ((unlocatedNodes (fieldNodes fields)).any fun node =>
            (fieldDefs.get node.1).isNone) =
          (fieldNodes fields).any fun node => (fieldDefs.get node.1).isNone := by
        rw [unlocatedNodes, List.any_map]
        rfl
      rw [ValueNode.unlocated, coerceInputLiteral_object hnamed, coerceInputLiteral_object hnamed,
        fieldNodes_unlocated, hunknown, coerceFieldNodes_unlocated ih]
      simp only [isOneOfLiteral_unlocated]
  | other literal name hpresent hobject =>
      have hpresent' := (isPresent_unlocated literal).trans hpresent
      cases hnamed : types.named name with
      | scalar scalar =>
          rw [coerceInputLiteral_scalar hnamed hpresent, coerceInputLiteral_scalar hnamed hpresent',
            scalar_unlocated]
      | customScalar custom => exact custom.elim
      | «enum» values =>
          rw [coerceInputLiteral_enum hnamed hpresent, coerceInputLiteral_enum hnamed hpresent',
            enum_unlocated]
      | inputObject fieldDefs isOneOf =>
          have hfields : ∀ fields loc, literal ≠ .object fields loc :=
            fun fields loc hliteral => hobject fields loc hliteral fieldDefs isOneOf hnamed
          rw [coerceInputLiteral_noObject hnamed hpresent hfields,
            coerceInputLiteral_noObject hnamed hpresent']
          intro fields loc hliteral
          cases literal with
          | object fields loc => exact hfields fields loc rfl
          | _ => cases hliteral

/-- Literals that differ only in their locations are coerced to the same. -/
theorem coerceInputLiteral_eq_of_unlocated {literal literal' : ValueNode}
    (h : literal.unlocated = literal'.unlocated) (type : GraphQLType) :
    coerceInputLiteral types variableValues coerceDefault literal type =
      coerceInputLiteral types variableValues coerceDefault literal' type := by
  rw [← coerceInputLiteral_unlocated literal, h, coerceInputLiteral_unlocated]

end Locations

/-! ## The texts of numbers -/

section Numbers

theorem spellsDigits_printNat (value : ℕ) : SpellsDigits (printNat value) where
  ne_nil := by
    rw [printNat]
    simp [Nat.toDigits_ne_nil]
  digits := fun _ => isDigit_of_mem_printNat

/-- The text of a number starts with no zero, unless the number is zero. -/
theorem head_printNat {value : ℕ} (h : value ≠ 0) : (printNat value).head? ≠ some 48 := by
  induction value using Nat.strong_induction_on with
  | _ value ih =>
      rw [printNat, Nat.toDigits_eq_if (by decide)]
      split
      · rename_i hsmall
        have hdigit : ∀ digit < 10, digit ≠ 0 → digit.digitChar.toNat ≠ 48 := by decide
        exact fun heq => hdigit value hsmall h (Option.some.inj heq)
      · rename_i hlarge
        have hne : (Nat.toDigits 10 (value / 10)).map Char.toNat ≠ [] := by
          simp [Nat.toDigits_ne_nil]
        rw [List.map_append, List.head?_append_of_ne_nil _ hne]
        exact ih (value / 10) (by omega) (by omega)

theorem spellsInteger_printNat (value : ℕ) : SpellsInteger (printNat value) := by
  by_cases h : value = 0
  · rw [h]
    exact .inl rfl
  · exact .inr ⟨spellsDigits_printNat value, head_printNat h⟩

theorem spellsNumber_of_integer {integer : Text} (h : SpellsInteger integer) :
    SpellsNumber false integer := by
  simpa using SpellsNumber.parts (.inl rfl) h (.inl rfl) (.inl rfl)

theorem spellsNumber_neg {integer : Text} (h : SpellsInteger integer) :
    SpellsNumber false (45 :: integer) := by
  simpa using SpellsNumber.parts (.inr rfl) h (.inl rfl) (.inl rfl)

theorem spellsNumber_intText (value : ℤ) : SpellsNumber false (intText value) := by
  rw [intText]
  split
  · exact spellsNumber_neg (spellsInteger_printNat _)
  · exact spellsNumber_of_integer (spellsInteger_printNat _)

theorem spellsInteger_of_isNatString {text : Text} (h : isNatString text = true) :
    SpellsInteger text := by
  rw [isNatString.eq_def] at h
  split at h
  · exact .inl rfl
  · rename_i c rest hzero
    simp only [Bool.and_eq_true, decide_eq_true_eq, List.all_eq_true] at h
    obtain ⟨⟨hc, hdigit⟩, hrest⟩ := h
    refine .inr ⟨⟨List.cons_ne_nil _ _, List.forall_mem_cons.mpr ⟨hdigit, hrest⟩⟩, ?_⟩
    rw [List.head?_cons]
    exact fun heq => hc (Option.some.inj heq)
  · cases h

/-- A text that matches the pattern of integers is that of a number, unless it ends with the
line feed that the pattern lets pass. -/
theorem spellsNumber_of_isIntegerString {text : Text} (h : isIntegerString text = true)
    (hline : text.getLast? ≠ some 10) : SpellsNumber false text := by
  rw [isIntegerString, if_neg hline] at h
  split at h
  · exact spellsNumber_neg (spellsInteger_of_isNatString h)
  · exact spellsNumber_of_integer (spellsInteger_of_isNatString h)

end Numbers

/-! ## Literals that can be written -/

/-- The names of fields and enum values are those that the constructors of the types take. -/
structure ValidNames (types : InputTypes floats Empty) : Prop where
  field : ∀ name fields isOneOf, types.named name = .inputObject fields isOneOf →
    ∀ fieldDef ∈ fields.items, IsName fieldDef.1
  value : ∀ name values, types.named name = .enum values →
    ∀ valueName ∈ values.keys, IsEnumName valueName

/-- Some part of the value is that text, where a specified scalar is expected. -/
inductive TextAt (types : InputTypes floats Empty) (text : Text) (scalar : SpecifiedScalar) :
    HostValue floats → GraphQLType → Prop
  | scalar {name : Text} (hnamed : types.named name = .scalar scalar) :
      TextAt types text scalar (.str text) (.named name)
  | nonNull {value : HostValue floats} {ofType : GraphQLType}
      (h : TextAt types text scalar value ofType) :
      TextAt types text scalar value (.nonNull ofType)
  | item {items : List (HostValue floats)} {item : HostValue floats} {itemType : GraphQLType}
      (hmem : item ∈ items) (h : TextAt types text scalar item itemType) :
      TextAt types text scalar (.iterable items) (.list itemType)
  | single {value : HostValue floats} {itemType : GraphQLType}
      (hitems : ∀ items, value ≠ .iterable items) (h : TextAt types text scalar value itemType) :
      TextAt types text scalar value (.list itemType)
  | field {name : Text} {fields : Dict Text (InputField floats)} {isOneOf isDict : Bool}
      {entries : List (Text × HostValue floats)} {fieldName : Text} {field : InputField floats}
      {value : HostValue floats} (hnamed : types.named name = .inputObject fields isOneOf)
      (hmem : (fieldName, field) ∈ fields.items) (hgiven : given entries fieldName = some value)
      (h : TextAt types text scalar value field.type) :
      TextAt types text scalar (.mapping isDict entries) (.named name)

/-- The texts of the value can be written: their surrogates come in pairs, and no ID is an
integer with a line feed. -/
structure PrintableTexts (types : InputTypes floats Empty) (value : HostValue floats)
    (type : GraphQLType) : Prop where
  paired : ∀ text scalar, TextAt types text scalar value type → IsPaired text
  id : ∀ text, TextAt types text .id value type → isIntegerString text = true →
    text.getLast? ≠ some 10

section Writable

variable {types : InputTypes floats Empty} {value : HostValue floats} {type : GraphQLType}
  {literal : ValueNode}

theorem PrintableTexts.of_textAt {part : HostValue floats} {partType : GraphQLType}
    (h : PrintableTexts types value type)
    (hpart : ∀ text scalar, TextAt types text scalar part partType →
      TextAt types text scalar value type) : PrintableTexts types part partType where
  paired text scalar htext := h.paired text scalar (hpart text scalar htext)
  id text htext := h.id text (hpart text .id htext)

theorem default_eq_string {node : StringValueNode}
    (h : defaultScalarValueToLiteral value = some (.string node)) :
    ∃ text, value = .str text ∧ node = { value := text, block := some false } := by
  cases value with
  | str text => exact ⟨text, rfl, (ValueNode.string.inj (Option.some.inj h)).symm⟩
  | float number =>
      rw [defaultScalarValueToLiteral] at h
      split at h
      · have hnumber := Option.some.inj h
        split at hnumber <;> cases hnumber
      · cases h
  | iterable items =>
      obtain ⟨_, _, heq⟩ := Option.map_eq_some_iff.mp h
      cases heq
  | mapping isDict entries =>
      obtain ⟨_, _, heq⟩ := Option.map_eq_some_iff.mp h
      cases heq
  | _ => cases h

/-- The literals of scalars without fractions can be written. -/
theorem writable_scalar {scalar : SpecifiedScalar} (hscalar : scalar ≠ .float)
    (hpaired : ∀ text, value = .str text → IsPaired text)
    (hid : scalar = .id → ∀ text, value = .str text → isIntegerString text = true →
      text.getLast? ≠ some 10)
    (h : scalar.valueToLiteral value = some literal) : literal.Writable := by
  cases scalar with
  | string =>
      rw [SpecifiedScalar.valueToLiteral, SpecifiedScalar.stringValueToLiteral] at h
      split at h
      · rename_i node hnode
        obtain ⟨text, rfl, rfl⟩ := default_eq_string hnode
        obtain rfl := Option.some.inj h
        exact ⟨rfl, hpaired text rfl⟩
      · cases h
  | int =>
      obtain ⟨number, -, rfl⟩ := Option.map_eq_some_iff.mp h
      exact spellsNumber_intText number
  | float => exact absurd rfl hscalar
  | boolean =>
      rw [SpecifiedScalar.valueToLiteral, SpecifiedScalar.booleanValueToLiteral] at h
      split at h
      · obtain rfl := Option.some.inj h
        trivial
      · cases h
  | id =>
      rw [SpecifiedScalar.valueToLiteral, SpecifiedScalar.idValueToLiteral.eq_def] at h
      split at h
      · rename_i text
        obtain rfl := Option.some.inj h
        split
        · rename_i hinteger
          exact spellsNumber_of_isIntegerString hinteger (hid rfl text rfl hinteger)
        · exact ⟨rfl, hpaired text rfl⟩
      · obtain ⟨text, htext, rfl⟩ := Option.map_eq_some_iff.mp h
        obtain ⟨number, -, rfl⟩ := Option.map_eq_some_iff.mp htext
        exact spellsNumber_intText number

theorem writable_enum {values : Dict Text (HostValue floats)}
    (hnames : ∀ valueName ∈ values.keys, IsEnumName valueName)
    (h : enumValueToLiteral values value = some literal) : literal.Writable := by
  rw [enumValueToLiteral.eq_def] at h
  split at h
  · split at h
    · rename_i hknown
      obtain rfl := Option.some.inj h
      exact hnames _ (Dict.mem_keys_iff.mpr hknown)
    · cases h
  · cases h

theorem writable_items {items : List (HostValue floats)} {itemType : GraphQLType}
    {values : List ValueNode} (h : itemsToLiterals types items itemType = some values)
    (ih : ∀ item ∈ items, ∀ literal, valueToLiteral types item itemType = some literal →
      literal.Writable) : WritableValues values := by
  induction items generalizing values with
  | nil =>
      rw [itemsToLiterals] at h
      obtain rfl := Option.some.inj h
      trivial
  | cons item items ihItems =>
      obtain ⟨hitem, hitems⟩ := List.forall_mem_cons.mp ih
      rw [itemsToLiterals] at h
      obtain ⟨literal, hliteral, h⟩ := Option.bind_eq_some_iff.mp h
      obtain ⟨rest, hrest, h⟩ := Option.bind_eq_some_iff.mp h
      obtain rfl := Option.some.inj h
      exact ⟨hitem literal hliteral, ihItems hrest hitems⟩

theorem writable_entries {entries : List (Text × HostValue floats)}
    {fieldDefs : List (Text × InputField floats)} {nodes : List ObjectFieldNode}
    (hnames : ∀ fieldDef ∈ fieldDefs, IsName fieldDef.1)
    (h : entriesToLiterals types entries fieldDefs = some nodes)
    (ih : ∀ fieldDef ∈ fieldDefs, ∀ value, given entries fieldDef.1 = some value →
      ∀ literal, valueToLiteral types value fieldDef.2.type = some literal → literal.Writable) :
    WritableFields nodes := by
  induction fieldDefs generalizing nodes with
  | nil =>
      rw [entriesToLiterals] at h
      obtain rfl := Option.some.inj h
      trivial
  | cons fieldDef rest ihRest =>
      obtain ⟨fieldName, field⟩ := fieldDef
      obtain ⟨hname, hnames⟩ := List.forall_mem_cons.mp hnames
      obtain ⟨hfield, hrest⟩ := List.forall_mem_cons.mp ih
      cases hgiven : given entries fieldName with
      | none =>
          rw [entriesToLiterals_absent hgiven] at h
          split at h
          · cases h
          · exact ihRest hnames h hrest
      | some value =>
          rw [entriesToLiterals_given hgiven] at h
          obtain ⟨literal, hliteral, h⟩ := Option.bind_eq_some_iff.mp h
          obtain ⟨nodes, hnodes, rfl⟩ := Option.map_eq_some_iff.mp h
          exact ⟨hname, hfield value hgiven literal hliteral, ihRest hnames hnodes hrest⟩

/-- The literal of a value can be written. -/
theorem writable_valueToLiteral (hnames : ValidNames types)
    (hfloat : ∀ name, types.named name ≠ .scalar .float)
    (htexts : PrintableTexts types value type)
    (h : valueToLiteral types value type = some literal) : literal.Writable := by
  induction value, type using position_induction types generalizing literal with
  | missing value type hmissing =>
      rw [valueToLiteral_missing hmissing] at h
      split at h
      · cases h
      · obtain rfl := Option.some.inj h
        trivial
  | nonNull value ofType hmissing ih =>
      rw [valueToLiteral_nonNull hmissing] at h
      exact ih (htexts.of_textAt fun _ _ => .nonNull) h
  | list items itemType ih =>
      rw [valueToLiteral_list] at h
      obtain ⟨values, hvalues, rfl⟩ := Option.map_eq_some_iff.mp h
      exact writable_items hvalues fun item hmem literal =>
        ih item hmem (htexts.of_textAt fun _ _ => .item hmem)
  | single value itemType hmissing hitems ih =>
      rw [valueToLiteral_single hmissing hitems] at h
      exact ih (htexts.of_textAt fun _ _ => .single hitems) h
  | object name fields isOneOf isDict entries hnamed ih =>
      rw [valueToLiteral_object hnamed] at h
      split at h
      · cases h
      · obtain ⟨nodes, hnodes, rfl⟩ := Option.map_eq_some_iff.mp h
        exact writable_entries (hnames.field name fields isOneOf hnamed) hnodes
          fun fieldDef hmem value hgiven literal => ih fieldDef.1 fieldDef.2 value hmem hgiven
            (htexts.of_textAt fun _ _ => .field hnamed hmem hgiven)
  | other value name hmissing hobject =>
      cases hnamed : types.named name with
      | scalar scalar =>
          rw [valueToLiteral_scalar hnamed hmissing] at h
          refine writable_scalar (fun heq => hfloat name (heq ▸ hnamed)) ?_ ?_ h
          · rintro text rfl
            exact htexts.paired text scalar (.scalar hnamed)
          · rintro rfl text rfl
            exact htexts.id text (.scalar hnamed)
      | customScalar custom => exact custom.elim
      | «enum» values =>
          rw [valueToLiteral_enum hnamed hmissing] at h
          exact writable_enum (hnames.value name values hnamed) h
      | inputObject fields isOneOf =>
          rw [valueToLiteral_noObject hnamed hmissing fun isDict entries hvalue =>
            hobject isDict entries hvalue fields isOneOf hnamed] at h
          cases h

end Writable

/-! ## Values that are written out -/

/-- The value has a literal that is coerced to the result after it was written and parsed. -/
def SurvivesPrinting (types : InputTypes floats Empty) (depth : ℕ) (value : HostValue floats)
    (type : GraphQLType) (coerced : HostValue floats) : Prop :=
  ∃ literal parsed, valueToLiteral types value type = some literal ∧
    parseConstValue {} (printValue literal) = .ok parsed ∧
    coerceInputLiteral types none (coerceDefaultValue types depth) parsed type = .ok coerced

/-- A value keeps its meaning when its literal is written out, if its texts can be written and
no OneOf type lets a default value replace the entry of another field. -/
theorem survivesPrinting_of_coerced (types : InputTypes floats Empty) (hnames : ValidNames types)
    (hfloat : ∀ name, types.named name ≠ .scalar .float) (hreplace : NoReplacement types)
    (depth : ℕ) (value : HostValue floats) (type : GraphQLType) (coerced : HostValue floats)
    (htexts : PrintableTexts types value type)
    (h : coerceInputValue types (coerceDefaultValue types depth) value type = .ok coerced) :
    SurvivesPrinting types depth value type coerced := by
  obtain ⟨literal, hliteral, -, hcoerce⟩ :=
    hasMeaning (hreplace.no_default depth) value type coerced h
  obtain ⟨parsed, hparse, hunlocated⟩ := parseConstValue_printValue false literal
    (writable_valueToLiteral hnames hfloat htexts hliteral)
  refine ⟨literal, parsed, hliteral, hparse, ?_⟩
  rw [coerceInputLiteral_eq_of_unlocated hunlocated, hcoerce]

/-- Types of texts. -/
def textTypes : InputTypes integralFloats Empty where
  named name := .scalar (if name = str "ID" then .id else .string)

theorem textTypes_named {name : Text} {type : NamedInputType integralFloats Empty}
    (h : textTypes.named name = type) : type = .scalar .id ∨ type = .scalar .string := by
  rw [← h]
  by_cases hname : name = str "ID"
  · simp [textTypes, hname]
  · simp [textTypes, hname]

/-- A list of texts, the last of which is a pair of surrogates. -/
theorem survivesPrinting_of_coerced_texts :
    SurvivesPrinting textTypes 0 (.iterable [.str (str "a"), .str [0xD83D, 0xDE00]])
      (.list (.named (str "String"))) (.iterable [.str (str "a"), .str [0xD83D, 0xDE00]]) := by
  have hnames : ValidNames textTypes := by
    refine ⟨fun name fields isOneOf h => ?_, fun name values h => ?_⟩
    · rcases textTypes_named h with heq | heq <;> cases heq
    · rcases textTypes_named h with heq | heq <;> cases heq
  have hfloat : ∀ name, textTypes.named name ≠ .scalar .float := by
    intro name h
    rcases textTypes_named h with heq | heq <;> cases heq
  have hreplace : NoReplacement textTypes := by
    intro name fields h
    rcases textTypes_named h with heq | heq <;> cases heq
  have htexts : PrintableTexts textTypes
      (.iterable [.str (str "a"), .str [0xD83D, 0xDE00]]) (.list (.named (str "String"))) := by
    refine ⟨fun text scalar h => ?_, fun text h => ?_⟩
    · cases h with
      | single hitems => exact absurd rfl (hitems _)
      | item hmem h =>
          cases h with
          | scalar =>
              simp only [List.mem_cons, HostValue.str.injEq, List.not_mem_nil, or_false] at hmem
              rcases hmem with rfl | rfl
              · exact .scalar (by decide) .nil
              · exact .surrogates (by decide) (by decide) .nil
          | field hnamed => rcases textTypes_named hnamed with heq | heq <;> cases heq
    · cases h with
      | single hitems => exact absurd rfl (hitems _)
      | item hmem h =>
          cases h with
          | scalar hnamed =>
              have hstring : textTypes.named (str "String") = .scalar .string := rfl
              cases hstring.symm.trans hnamed
          | field hnamed => rcases textTypes_named hnamed with heq | heq <;> cases heq
  refine survivesPrinting_of_coerced textTypes hnames hfloat hreplace 0 _ _ _ htexts ?_
  rw [coerceInputValue_list, coerceItems, coerceInputValue_scalar rfl rfl, coerceItems,
    coerceInputValue_scalar rfl rfl, coerceItems]
  rfl

/-- A text is not parsed after it was printed with a surrogate of its own. -/
theorem loneSurrogate_not_parsed : (parseConstValue {}
    (printValue (.string { value := [0xD800], block := some false }))).toBool = false := by
  decide +kernel

/-- An ID that is an integer with a line feed loses the line feed. -/
theorem parseConstValue_lineFeed : (parseConstValue {}
    (printValue (.int (str "1\n") none))).toOption.map ValueNode.lexemes =
      some [(.int, some (str "1"))] := by
  decide +kernel

theorem eq_int_of_lexemes {literal : ValueNode} {value : Text}
    (h : literal.lexemes = [(.int, some value)]) : ∃ loc, literal = .int value loc := by
  cases literal with
  | int text loc => exact ⟨loc, by simpa [ValueNode.lexemes] using h⟩
  | string node =>
      rw [ValueNode.lexemes] at h
      split at h <;> simp at h
  | _ => simp [ValueNode.lexemes] at h

/-- What is written of a surrogate of its own is not parsed, an ID loses a line feed after an
integer, and the literal with null is refused where a default value stands for null. -/
theorem survivesPrinting_exceptions :
    (coerceInputValue textTypes (coerceDefaultValue textTypes 0) (.str [0xD800])
        (.named (str "String")) = .ok (.str [0xD800]) ∧
      ¬SurvivesPrinting textTypes 0 (.str [0xD800]) (.named (str "String")) (.str [0xD800])) ∧
    (coerceInputValue textTypes (coerceDefaultValue textTypes 0) (.str (str "1\n"))
        (.named (str "ID")) = .ok (.str (str "1\n")) ∧
      ¬SurvivesPrinting textTypes 0 (.str (str "1\n")) (.named (str "ID"))
        (.str (str "1\n"))) ∧
    coerceInputValue replacingTypes (coerceDefaultValue replacingTypes 1) noCat
        (.named (str "Pet")) = .ok (.mapping true [(str "pet", .int 1)]) ∧
      ¬SurvivesPrinting replacingTypes 1 noCat (.named (str "Pet"))
        (.mapping true [(str "pet", .int 1)]) := by
  refine ⟨⟨?_, ?_⟩, ⟨?_, ?_⟩, coerceInputValue_noCat, ?_⟩
  · rw [coerceInputValue_scalar rfl rfl]
    rfl
  · rintro ⟨literal, parsed, hliteral, hparse, -⟩
    rw [valueToLiteral_scalar rfl rfl] at hliteral
    obtain rfl := Option.some.inj hliteral
    have hfails := loneSurrogate_not_parsed
    rw [hparse] at hfails
    cases hfails
  · rw [coerceInputValue_scalar rfl rfl]
    rfl
  · rintro ⟨literal, parsed, hliteral, hparse, hcoerce⟩
    have hint : valueToLiteral textTypes (.str (str "1\n")) (.named (str "ID")) =
        some (.int (str "1\n") none) := by
      rw [valueToLiteral_scalar rfl rfl]
      rfl
    obtain rfl := Option.some.inj (hint.symm.trans hliteral)
    have hlexemes := parseConstValue_lineFeed
    rw [hparse] at hlexemes
    obtain ⟨loc, rfl⟩ := eq_int_of_lexemes (Option.some.inj hlexemes)
    rw [coerceInputLiteral_scalar rfl rfl] at hcoerce
    have hid : (.str (str "1") : HostValue integralFloats) = .str (str "1\n") :=
      Except.ok.inj hcoerce
    cases hid
  · rintro ⟨literal, parsed, hliteral, hparse, hcoerce⟩
    obtain rfl := Option.some.inj (valueToLiteral_noCat.symm.trans hliteral)
    have hwritable : (ValueNode.object
        [⟨{ value := str "cat" }, .null none, none⟩] none).Writable :=
      ⟨⟨_, _, rfl, by decide, by decide⟩, trivial, trivial⟩
    obtain ⟨parsed', hparse', hunlocated⟩ := parseConstValue_printValue false _ hwritable
    obtain rfl := Except.ok.inj (hparse.symm.trans hparse')
    rw [coerceInputLiteral_eq_of_unlocated hunlocated, coerceInputLiteral_noCat] at hcoerce
    cases hcoerce

end GraphqlCore.ValueLiterals
