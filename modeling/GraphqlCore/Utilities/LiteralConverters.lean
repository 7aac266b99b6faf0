import GraphqlCore.Utilities.ValueFromAst

/-!
# Literal converters

What `value_from_ast` and `coerce_input_literal` have in common.  A converter is determined by
its reading of leaf literals and by the default values that it knows, and so are the literals
that it accepts.
-/

namespace GraphqlCore.ValueLiterals

open Language

variable {floats : FloatFormat} {Custom : Type}

/-! ## Positions of literals -/

/-- A property that follows for a literal at a type from the positions next to it holds
everywhere. -/
theorem literal_induction (types : InputTypes floats Custom)
    {motive : ValueNode → GraphQLType → Prop}
    («variable» : ∀ node type, motive (.variable node) type)
    (null : ∀ loc type, motive (.null loc) type)
    (nonNull : ∀ literal ofType, isPresent literal = true → motive literal ofType →
      motive literal (.nonNull ofType))
    (list : ∀ values loc itemType, (∀ value ∈ values, motive value itemType) →
      motive (.list values loc) (.list itemType))
    (single : ∀ literal itemType, isPlain literal = true → motive literal itemType →
      motive literal (.list itemType))
    (object : ∀ fields loc name fieldDefs isOneOf,
      types.named name = .inputObject fieldDefs isOneOf →
      (∀ fieldDef ∈ fieldDefs.items, ∀ literal,
        Dict.find fieldDef.1 (fieldNodes fields) = some literal →
          motive literal fieldDef.2.type) →
      motive (.object fields loc) (.named name))
    (other : ∀ literal name, isPresent literal = true →
      (∀ fields loc, literal = .object fields loc → ∀ fieldDefs isOneOf,
        types.named name ≠ .inputObject fieldDefs isOneOf) → motive literal (.named name)) :
    ∀ literal type, motive literal type
  | literal, .nonNull ofType => by
      cases hpresent : isPresent literal with
      | true =>
          exact nonNull literal ofType hpresent (literal_induction types «variable» null nonNull
            list single object other literal ofType)
      | false =>
          cases literal with
          | «variable» node => exact «variable» node _
          | null loc => exact null loc _
          | _ => nomatch hpresent
  | literal, .list itemType => by
      cases hplain : isPlain literal with
      | true =>
          exact single literal itemType hplain (literal_induction types «variable» null nonNull
            list single object other literal itemType)
      | false =>
          cases literal with
          | «variable» node => exact «variable» node _
          | null loc => exact null loc _
          | list values loc =>
              refine list values loc itemType fun value hmem => ?_
              have hlt := List.sizeOf_lt_of_mem hmem
              exact literal_induction types «variable» null nonNull list single object other
                value itemType
          | _ => nomatch hplain
  | literal, .named name => by
      by_cases hobject : ∃ fields loc fieldDefs isOneOf, literal = .object fields loc ∧
          types.named name = .inputObject fieldDefs isOneOf
      · obtain ⟨fields, loc, fieldDefs, isOneOf, rfl, hnamed⟩ := hobject
        refine object fields loc name fieldDefs isOneOf hnamed fun fieldDef _ value hfind => ?_
        have hlt : sizeOf value < sizeOf (ValueNode.object fields loc) := by
          have hfields := sizeOf_fieldNodes_lt fields
          have hvalue := sizeOf_find_lt hfind
          simp only [ValueNode.object.sizeOf_spec]
          omega
        exact literal_induction types «variable» null nonNull list single object other value
          fieldDef.2.type
      · cases hpresent : isPresent literal with
        | true =>
            refine other literal name hpresent ?_
            intro fields loc hliteral fieldDefs isOneOf hnamed
            exact hobject ⟨fields, loc, fieldDefs, isOneOf, hliteral, hnamed⟩
        | false =>
            cases literal with
            | «variable» node => exact «variable» node _
            | null loc => exact null loc _
            | _ => nomatch hpresent
termination_by literal type => (sizeOf literal, sizeOf type)

/-! ## Settled results -/

/-- The computation returns a value where `p` holds and `Undefined` elsewhere. -/
def Settles {α : Type} (x : Except Stop α) (p : Prop) : Prop :=
  (∃ a, x = .ok a) ∧ p ∨ x = .error .undefined ∧ ¬p

namespace Settles

variable {α β : Type} {x : Except Stop α} {f : α → Except Stop β} {p q : Prop}

theorem ok {a : α} (h : p) : Settles (.ok a) p := Or.inl ⟨⟨a, rfl⟩, h⟩

theorem undefined (h : ¬p) : Settles (.error .undefined : Except Stop α) p := Or.inr ⟨rfl, h⟩

theorem congr (h : Settles x p) (hpq : p ↔ q) : Settles x q := propext hpq ▸ h

theorem isOk_iff (h : Settles x p) : (∃ a, x = .ok a) ↔ p := by
  rcases h with ⟨hok, hp⟩ | ⟨rfl, hp⟩
  · exact iff_of_true hok hp
  · exact iff_of_false (fun ⟨_, h⟩ => nomatch h) hp

theorem eq_undefined (h : Settles x p) (hp : ¬p) : x = .error .undefined := by
  rcases h with ⟨-, h⟩ | ⟨h, -⟩
  · exact absurd h hp
  · exact h

theorem map {g : α → β} (h : Settles x p) : Settles (g <$> x) p := by
  rcases h with ⟨⟨a, rfl⟩, hp⟩ | ⟨rfl, hp⟩
  · exact ok hp
  · exact undefined hp

theorem bind (hx : Settles x p) (hf : ∀ a, x = .ok a → Settles (f a) q) :
    Settles (x >>= f) (p ∧ q) := by
  rcases hx with ⟨⟨a, rfl⟩, hp⟩ | ⟨rfl, hp⟩
  · exact (hf a rfl).congr (and_iff_right hp).symm
  · exact undefined fun h => hp h.1

theorem mapM {items : List α} {p : α → Prop} (h : ∀ item ∈ items, Settles (f item) (p item)) :
    Settles (items.mapM f) (∀ item ∈ items, p item) := by
  induction items with
  | nil => exact ok fun _ hmem => nomatch hmem
  | cons item rest ih =>
      obtain ⟨hitem, hrest⟩ := List.forall_mem_cons.mp h
      rw [List.mapM_cons]
      exact (hitem.bind fun _ _ => (ih hrest).map).congr List.forall_mem_cons.symm

end Settles

/-- The entries that the fields give. -/
def collectFields (f : Text × InputField floats → Except Stop (Option (HostValue floats))) :
    List (Text × InputField floats) → Except Stop (List (Text × HostValue floats))
  | [] => .ok []
  | fieldDef :: rest => do
      let value ← f fieldDef
      let entries ← collectFields f rest
      return (value.map fun value => (fieldDef.1, value)).toList ++ entries

theorem Settles.collectFields {fields : List (Text × InputField floats)}
    {f : Text × InputField floats → Except Stop (Option (HostValue floats))}
    {p : Text × InputField floats → Prop}
    (h : ∀ fieldDef ∈ fields, Settles (f fieldDef) (p fieldDef)) :
    Settles (ValueLiterals.collectFields f fields) (∀ fieldDef ∈ fields, p fieldDef) := by
  induction fields with
  | nil => exact ok fun _ hmem => nomatch hmem
  | cons fieldDef rest ih =>
      obtain ⟨hfield, hrest⟩ := List.forall_mem_cons.mp h
      exact (hfield.bind fun _ _ => (ih hrest).map).congr List.forall_mem_cons.symm

/-! ## Converters -/

/-- How a converter reads the literals of leaf types, and the default values it knows. -/
structure Converter (floats : FloatFormat) (Custom : Type) where
  parse : NamedInputType floats Custom → ValueNode → Option (HostValue floats)
  defaultLiteral : InputField floats → Option ValueNode

/-- Is the value of the literal `None`, where it is accepted? -/
def isNullLiteral (variableValues : Variables floats) : ValueNode → Bool
  | .null _ => true
  | .variable node => (variableValue variableValues node).isNone
  | _ => false

/-- The literal of a field that is not omitted. -/
def supplied (variableValues : Variables floats) (nodes : List (Text × ValueNode))
    (fieldName : Text) : Option ValueNode :=
  (Dict.find fieldName nodes).filter fun literal => !isMissingVariable variableValues literal

namespace Converter

variable (converter : Converter floats Custom) (types : InputTypes floats Custom)
  (variableValues : Variables floats)

/-- Does a leaf type take the literal? -/
def takes (leafType : NamedInputType floats Custom) (literal : ValueNode) : Bool :=
  (converter.parse leafType literal).any fun value => !value.isUndefined

/-- Is the entry of a field null?  `none` if the field has no entry. -/
def entryOf (nodes : List (Text × ValueNode)) (fieldDef : Text × InputField floats) :
    Option Bool :=
  match supplied variableValues nodes fieldDef.1 with
  | some literal => some (isNullLiteral variableValues literal)
  | none => (converter.defaultLiteral fieldDef.2).map (isNullLiteral (none : Variables floats))

/-- Exactly one field is given, which is not null, and with the default values there is
exactly one entry. -/
def HasOneField (nodes : List (Text × ValueNode)) (fields : List (Text × InputField floats)) :
    Prop :=
  ∃ fieldName literal entryName isNull, nodes = [(fieldName, literal)] ∧
    (∀ loc, literal ≠ .null loc) ∧
    (fields.filterMap fun fieldDef =>
      (converter.entryOf variableValues nodes fieldDef).map fun isNull => (fieldDef.1, isNull)) =
        [(entryName, isNull)] ∧
    ¬(fieldName = entryName ∧ isNull = true)

/-- The literals that are accepted at a type. -/
inductive Accepts : ValueNode → GraphQLType → Prop
  | variable {node : VariableNode} {type : GraphQLType}
      (hdefined : (variableValue variableValues node).isUndefined = false)
      (hnull : ¬((variableValue variableValues node).isNone = true ∧ isNonNullType type = true)) :
      Accepts (.variable node) type
  | null {loc : Option Location} {type : GraphQLType} (hnull : isNonNullType type = false) :
      Accepts (.null loc) type
  | nonNull {literal : ValueNode} {type : GraphQLType} (hpresent : isPresent literal = true)
      (h : Accepts literal type) : Accepts literal (.nonNull type)
  | list {values : List ValueNode} {loc : Option Location} {type : GraphQLType}
      (h : ∀ value ∈ values,
        ¬(isMissingVariable variableValues value = true ∧ isNonNullType type = false) →
          Accepts value type) : Accepts (.list values loc) (.list type)
  | single {literal : ValueNode} {type : GraphQLType} (hplain : isPlain literal = true)
      (h : Accepts literal type) : Accepts literal (.list type)
  | object {fields : List ObjectFieldNode} {loc : Option Location} {name : Text}
      {fieldDefs : Dict Text (InputField floats)} {isOneOf : Bool}
      (hnamed : types.named name = .inputObject fieldDefs isOneOf)
      (hknown : ∀ node ∈ fieldNodes fields, (fieldDefs.get node.1).isSome = true)
      (hsupplied : ∀ fieldDef ∈ fieldDefs.items, ∀ literal,
        supplied variableValues (fieldNodes fields) fieldDef.1 = some literal →
          Accepts literal fieldDef.2.type)
      (homitted : ∀ fieldDef ∈ fieldDefs.items,
        supplied variableValues (fieldNodes fields) fieldDef.1 = none →
          isNonNullType fieldDef.2.type = true → converter.defaultLiteral fieldDef.2 ≠ none)
      (honeOf : isOneOf = true →
        converter.HasOneField variableValues (fieldNodes fields) fieldDefs.items) :
      Accepts (.object fields loc) (.named name)
  | leaf {literal : ValueNode} {name : Text} (hpresent : isPresent literal = true)
      (hleaf : ∀ fieldDefs isOneOf, types.named name ≠ .inputObject fieldDefs isOneOf)
      (h : converter.takes (types.named name) literal = true) : Accepts literal (.named name)

end Converter

/-- The value of a field of an object literal, `none` if it has none. -/
def fieldValue (variableValues : Variables floats)
    (omitted : InputField floats → Except Stop (Option (HostValue floats)))
    (convert : ValueNode → GraphQLType → Except Stop (HostValue floats))
    (nodes : List (Text × ValueNode)) (fieldDef : Text × InputField floats) :
    Except Stop (Option (HostValue floats)) :=
  match supplied variableValues nodes fieldDef.1 with
  | none => omitted fieldDef.2
  | some literal => some <$> convert literal fieldDef.2.type

/-- The value of an item of a list literal. -/
def itemValue (variableValues : Variables floats)
    (convert : ValueNode → GraphQLType → Except Stop (HostValue floats)) (itemType : GraphQLType)
    (item : ValueNode) : Except Stop (HostValue floats) :=
  if isMissingVariable variableValues item && !isNonNullType itemType then .ok .none
  else convert item itemType

/-- A function that converts literals in the way of a converter, at every position. -/
structure Converts (types : InputTypes floats Custom) (variableValues : Variables floats)
    (converter : Converter floats Custom)
    (omitted : InputField floats → Except Stop (Option (HostValue floats)))
    (convert : ValueNode → GraphQLType → Except Stop (HostValue floats)) : Prop where
  «variable» : ∀ node type, convert (.variable node) type =
    if (variableValue variableValues node).isUndefined ||
      (variableValue variableValues node).isNone && isNonNullType type then .error .undefined
    else .ok (variableValue variableValues node)
  null : ∀ loc type, convert (.null loc) type =
    if isNonNullType type then .error .undefined else .ok .none
  nonNull : ∀ literal type, isPresent literal = true →
    convert literal (.nonNull type) = convert literal type
  list : ∀ values loc type, convert (.list values loc) (.list type) =
    .iterable <$> values.mapM (itemValue variableValues convert type)
  single : ∀ literal type, isPlain literal = true →
    convert literal (.list type) = (fun item => .iterable [item]) <$> convert literal type
  object : ∀ name fieldDefs isOneOf, types.named name = .inputObject fieldDefs isOneOf →
    ∀ fields loc, convert (.object fields loc) (.named name) =
      if (fieldNodes fields).any fun node => (fieldDefs.get node.1).isNone then
        .error .undefined
      else do
        let entries ← collectFields (fieldValue variableValues omitted convert
          (fieldNodes fields)) fieldDefs.items
        if isOneOf && !isOneOfLiteral fieldDefs (fieldNodes fields) entries then
          .error .undefined
        else return .mapping true entries
  noObject : ∀ name fieldDefs isOneOf, types.named name = .inputObject fieldDefs isOneOf →
    ∀ literal, isPresent literal = true → (∀ fields loc, literal ≠ .object fields loc) →
      convert literal (.named name) = .error .undefined
  leaf : ∀ name, (∀ fieldDefs isOneOf, types.named name ≠ .inputObject fieldDefs isOneOf) →
    ∀ literal, isPresent literal = true →
      convert literal (.named name) = finishLeaf (converter.parse (types.named name) literal)
  parse_isNone : ∀ name literal value, isPresent literal = true →
    converter.parse (types.named name) literal = some value → value.isNone = false
  outName : ∀ name fieldDefs isOneOf, types.named name = .inputObject fieldDefs isOneOf →
    ∀ fieldDef ∈ fieldDefs.items, fieldDef.2.outName = none

/-- What stands for an omitted field is what the converter knows as its default value. -/
structure Completes (types : InputTypes floats Custom) (converter : Converter floats Custom)
    (omitted : InputField floats → Except Stop (Option (HostValue floats))) : Prop where
  of_none : ∀ name fieldDefs isOneOf, types.named name = .inputObject fieldDefs isOneOf →
    ∀ fieldDef ∈ fieldDefs.items, converter.defaultLiteral fieldDef.2 = none →
      omitted fieldDef.2 =
        if isNonNullType fieldDef.2.type then .error .undefined else .ok none
  of_some : ∀ name fieldDefs isOneOf, types.named name = .inputObject fieldDefs isOneOf →
    ∀ fieldDef ∈ fieldDefs.items, ∀ literal, converter.defaultLiteral fieldDef.2 = some literal →
      ∃ value, omitted fieldDef.2 = .ok (some value) ∧
        value.isNone = isNullLiteral (none : Variables floats) literal

/-! ## What is accepted -/

namespace Converter

section Inversion

variable {converter : Converter floats Custom} {types : InputTypes floats Custom}
  {variableValues : Variables floats} {literal : ValueNode} {type : GraphQLType} {name : Text}
  {loc : Option Location}

theorem accepts_variable_iff {node : VariableNode} :
    converter.Accepts types variableValues (.variable node) type ↔
      (variableValue variableValues node).isUndefined = false ∧
        ¬((variableValue variableValues node).isNone = true ∧ isNonNullType type = true) := by
  refine ⟨fun h => ?_, fun ⟨hdefined, hnull⟩ => .variable hdefined hnull⟩
  cases h with
  | «variable» hdefined hnull => exact ⟨hdefined, hnull⟩
  | nonNull hpresent => nomatch hpresent
  | single hplain => nomatch hplain
  | leaf hpresent => nomatch hpresent

theorem accepts_null_iff :
    converter.Accepts types variableValues (.null loc) type ↔ isNonNullType type = false := by
  refine ⟨fun h => ?_, .null⟩
  cases h with
  | null hnull => exact hnull
  | nonNull hpresent => nomatch hpresent
  | single hplain => nomatch hplain
  | leaf hpresent => nomatch hpresent

theorem accepts_nonNull_iff (hpresent : isPresent literal = true) :
    converter.Accepts types variableValues literal (.nonNull type) ↔
      converter.Accepts types variableValues literal type := by
  refine ⟨fun h => ?_, .nonNull hpresent⟩
  cases h with
  | nonNull _ h => exact h
  | _ => nomatch hpresent

theorem accepts_list_iff {values : List ValueNode} :
    converter.Accepts types variableValues (.list values loc) (.list type) ↔
      ∀ value ∈ values,
        ¬(isMissingVariable variableValues value = true ∧ isNonNullType type = false) →
          converter.Accepts types variableValues value type := by
  refine ⟨fun h => ?_, .list⟩
  cases h with
  | list h => exact h
  | single hplain => nomatch hplain

theorem accepts_single_iff (hplain : isPlain literal = true) :
    converter.Accepts types variableValues literal (.list type) ↔
      converter.Accepts types variableValues literal type := by
  refine ⟨fun h => ?_, .single hplain⟩
  cases h with
  | single _ h => exact h
  | _ => nomatch hplain

theorem accepts_object_iff {fields : List ObjectFieldNode}
    {fieldDefs : Dict Text (InputField floats)} {isOneOf : Bool}
    (hnamed : types.named name = .inputObject fieldDefs isOneOf) :
    converter.Accepts types variableValues (.object fields loc) (.named name) ↔
      (∀ node ∈ fieldNodes fields, (fieldDefs.get node.1).isSome = true) ∧
      (∀ fieldDef ∈ fieldDefs.items,
        (∀ literal, supplied variableValues (fieldNodes fields) fieldDef.1 = some literal →
          converter.Accepts types variableValues literal fieldDef.2.type) ∧
        (supplied variableValues (fieldNodes fields) fieldDef.1 = none →
          isNonNullType fieldDef.2.type = true → converter.defaultLiteral fieldDef.2 ≠ none)) ∧
      (isOneOf = true →
        converter.HasOneField variableValues (fieldNodes fields) fieldDefs.items) := by
  constructor
  · intro h
    cases h with
    | object hnamed' hknown hsupplied homitted honeOf =>
        obtain ⟨rfl, rfl⟩ := NamedInputType.inputObject.inj (hnamed.symm.trans hnamed')
        exact ⟨hknown, fun fieldDef hmem => ⟨hsupplied fieldDef hmem, homitted fieldDef hmem⟩,
          honeOf⟩
    | leaf _ hleaf => exact absurd hnamed (hleaf _ _)
  · rintro ⟨hknown, hfields, honeOf⟩
    exact .object hnamed hknown (fun fieldDef hmem => (hfields fieldDef hmem).1)
      (fun fieldDef hmem => (hfields fieldDef hmem).2) honeOf

theorem not_accepts_noObject {fieldDefs : Dict Text (InputField floats)} {isOneOf : Bool}
    (hnamed : types.named name = .inputObject fieldDefs isOneOf)
    (hpresent : isPresent literal = true) (hobject : ∀ fields loc, literal ≠ .object fields loc) :
    ¬converter.Accepts types variableValues literal (.named name) := by
  intro h
  cases h with
  | object => exact hobject _ _ rfl
  | leaf _ hleaf => exact hleaf _ _ hnamed
  | _ => nomatch hpresent

theorem accepts_leaf_iff (hpresent : isPresent literal = true)
    (hleaf : ∀ fieldDefs isOneOf, types.named name ≠ .inputObject fieldDefs isOneOf) :
    converter.Accepts types variableValues literal (.named name) ↔
      converter.takes (types.named name) literal = true := by
  refine ⟨fun h => ?_, .leaf hpresent hleaf⟩
  cases h with
  | leaf _ _ h => exact h
  | object hnamed => exact absurd hnamed (hleaf _ _)
  | _ => nomatch hpresent

end Inversion

end Converter

namespace Converts

variable {types : InputTypes floats Custom} {variableValues : Variables floats}
  {converter : Converter floats Custom}
  {omitted : InputField floats → Except Stop (Option (HostValue floats))}
  {convert : ValueNode → GraphQLType → Except Stop (HostValue floats)}

variable (hconvert : Converts types variableValues converter omitted convert)

include hconvert

/-- Only null literals and null variables are converted to `None`. -/
theorem isNone_eq {literal : ValueNode} {type : GraphQLType} {value : HostValue floats}
    (h : convert literal type = .ok value) :
    value.isNone = isNullLiteral variableValues literal := by
  induction literal, type using literal_induction types with
  | «variable» node type =>
      rw [hconvert.variable] at h
      split at h
      · nomatch h
      · rw [← Except.ok.inj h]
        rfl
  | null loc type =>
      rw [hconvert.null] at h
      split at h
      · nomatch h
      · rw [← Except.ok.inj h]
        rfl
  | nonNull literal ofType hpresent ih =>
      rw [hconvert.nonNull _ _ hpresent] at h
      exact ih h
  | list values loc itemType =>
      rw [hconvert.list] at h
      obtain ⟨items, -, rfl⟩ := map_eq_ok.mp h
      rfl
  | single literal itemType hplain =>
      rw [hconvert.single _ _ hplain] at h
      obtain ⟨item, -, rfl⟩ := map_eq_ok.mp h
      cases literal <;> first | rfl | nomatch hplain
  | object fields loc name fieldDefs isOneOf hnamed =>
      rw [hconvert.object _ _ _ hnamed] at h
      split at h
      · nomatch h
      · obtain ⟨entries, -, h⟩ := bind_eq_ok.mp h
        split at h
        · nomatch h
        · rw [← Except.ok.inj h]
          rfl
  | other literal name hpresent hobject =>
      have hnull : isNullLiteral variableValues literal = false := by
        cases literal <;> first | rfl | nomatch hpresent
      by_cases hinput : ∃ fieldDefs isOneOf, types.named name = .inputObject fieldDefs isOneOf
      · obtain ⟨fieldDefs, isOneOf, hnamed⟩ := hinput
        rw [hconvert.noObject _ _ _ hnamed _ hpresent fun fields loc hliteral =>
          hobject fields loc hliteral _ _ hnamed] at h
        nomatch h
      · rw [hconvert.leaf name (fun fieldDefs isOneOf hnamed =>
          hinput ⟨fieldDefs, isOneOf, hnamed⟩) _ hpresent] at h
        rw [hnull]
        exact hconvert.parse_isNone name literal value hpresent (finishLeaf_eq_ok h).1

/-! ### Fields of an object -/

section Fields

variable {nodes : List (Text × ValueNode)} {name : Text}
  {fieldDefs : Dict Text (InputField floats)} {isOneOf : Bool}

omit hconvert in
theorem find_of_supplied {fieldName : Text} {literal : ValueNode}
    (h : supplied variableValues nodes fieldName = some literal) :
    Dict.find fieldName nodes = some literal :=
  (Option.filter_eq_some_iff.mp h).1

omit hconvert in
theorem settles_field (hdefaults : Completes types converter omitted)
    (hnamed : types.named name = .inputObject fieldDefs isOneOf)
    {fieldDef : Text × InputField floats} (hmem : fieldDef ∈ fieldDefs.items)
    (h : ∀ literal, supplied variableValues nodes fieldDef.1 = some literal →
      Settles (convert literal fieldDef.2.type)
        (converter.Accepts types variableValues literal fieldDef.2.type)) :
    Settles (fieldValue variableValues omitted convert nodes fieldDef)
      ((∀ literal, supplied variableValues nodes fieldDef.1 = some literal →
          converter.Accepts types variableValues literal fieldDef.2.type) ∧
        (supplied variableValues nodes fieldDef.1 = none →
          isNonNullType fieldDef.2.type = true → converter.defaultLiteral fieldDef.2 ≠ none)) := by
  rw [fieldValue]
  cases hsupplied : supplied variableValues nodes fieldDef.1 with
  | some literal =>
      refine (h literal hsupplied).map.congr ⟨fun haccepts => ⟨?_, nofun⟩, fun h => h.1 _ rfl⟩
      rintro literal' hliteral
      rwa [← Option.some.inj hliteral]
  | none =>
      simp only
      cases hdefault : converter.defaultLiteral fieldDef.2 with
      | some literal =>
          obtain ⟨value, hvalue, -⟩ := hdefaults.of_some _ _ _ hnamed _ hmem _ hdefault
          rw [hvalue]
          exact .ok ⟨nofun, fun _ _ => nofun⟩
      | none =>
          rw [hdefaults.of_none _ _ _ hnamed _ hmem hdefault]
          cases hnonNull : isNonNullType fieldDef.2.type with
          | true => exact .undefined fun h => h.2 trivial rfl rfl
          | false => exact .ok ⟨nofun, fun _ => nofun⟩

theorem isNone_fieldValue (hdefaults : Completes types converter omitted)
    (hnamed : types.named name = .inputObject fieldDefs isOneOf)
    {fieldDef : Text × InputField floats} (hmem : fieldDef ∈ fieldDefs.items)
    {value : Option (HostValue floats)}
    (h : fieldValue variableValues omitted convert nodes fieldDef = .ok value) :
    value.map HostValue.isNone = converter.entryOf variableValues nodes fieldDef := by
  rw [fieldValue] at h
  rw [Converter.entryOf]
  cases hsupplied : supplied variableValues nodes fieldDef.1 with
  | some literal =>
      rw [hsupplied] at h
      obtain ⟨value, hvalue, rfl⟩ := map_eq_ok.mp h
      rw [Option.map_some, hconvert.isNone_eq hvalue]
  | none =>
      rw [hsupplied] at h
      simp only at h ⊢
      cases hdefault : converter.defaultLiteral fieldDef.2 with
      | some literal =>
          obtain ⟨value', hvalue, hnull⟩ := hdefaults.of_some _ _ _ hnamed _ hmem _ hdefault
          rw [hvalue] at h
          rw [← Except.ok.inj h, Option.map_some, hnull, Option.map_some]
      | none =>
          rw [hdefaults.of_none _ _ _ hnamed _ hmem hdefault] at h
          split at h
          · nomatch h
          · rw [← Except.ok.inj h]
            rfl

omit hconvert in
theorem nulls_collectFields {fields : List (Text × InputField floats)}
    {f : Text × InputField floats → Except Stop (Option (HostValue floats))}
    {g : Text × InputField floats → Option Bool} {entries : List (Text × HostValue floats)}
    (hentries : collectFields f fields = .ok entries)
    (h : ∀ fieldDef ∈ fields, ∀ value, f fieldDef = .ok value →
      value.map HostValue.isNone = g fieldDef) :
    entries.map (fun entry => (entry.1, entry.2.isNone)) =
      fields.filterMap fun fieldDef => (g fieldDef).map fun isNull => (fieldDef.1, isNull) := by
  induction fields generalizing entries with
  | nil =>
      rw [← Except.ok.inj hentries]
      rfl
  | cons fieldDef rest ih =>
      obtain ⟨hfield, hrest⟩ := List.forall_mem_cons.mp h
      obtain ⟨value, hvalue, hentries⟩ := bind_eq_ok.mp hentries
      obtain ⟨entries', hentries', hentries⟩ := bind_eq_ok.mp hentries
      rw [← Except.ok.inj hentries, List.map_append, ih hentries' hrest, List.filterMap_cons,
        ← hfield value hvalue]
      cases value <;> rfl

omit hconvert in
theorem isOneOfLiteral_iff {entries : List (Text × HostValue floats)}
    (hknown : ∀ node ∈ nodes, (fieldDefs.get node.1).isSome = true)
    (houtName : ∀ fieldDef ∈ fieldDefs.items, fieldDef.2.outName = none)
    (hnulls : entries.map (fun entry => (entry.1, entry.2.isNone)) =
      fieldDefs.items.filterMap fun fieldDef =>
        (converter.entryOf variableValues nodes fieldDef).map fun isNull =>
          (fieldDef.1, isNull)) :
    isOneOfLiteral fieldDefs nodes entries = true ↔
      converter.HasOneField variableValues nodes fieldDefs.items := by
  rw [Converter.HasOneField, ← hnulls]
  clear hnulls
  rcases nodes with _ | ⟨⟨fieldName, literal⟩, _ | ⟨_, _⟩⟩
  · simp [isOneOfLiteral]
  · obtain ⟨field, hfield⟩ := Option.isSome_iff_exists.mp
      (hknown (fieldName, literal) List.mem_cons_self)
    have hname : field.outNameOr fieldName = fieldName := by
      rw [InputField.outNameOr, houtName _ (Dict.mem_items_iff.mpr hfield)]
    rcases entries with _ | ⟨⟨outName, value⟩, _ | ⟨_, _⟩⟩
    · cases literal <;> simp [isOneOfLiteral]
    · cases literal <;> simp [isOneOfLiteral, hfield, hname, imp_iff_not_or]
    · cases literal <;> simp [isOneOfLiteral]
  · simp [isOneOfLiteral]

end Fields

/-- A converter returns a value for the literals that it accepts, and `Undefined` for the
others. -/
theorem settles (hdefaults : Completes types converter omitted) (literal : ValueNode)
    (type : GraphQLType) :
    Settles (convert literal type) (converter.Accepts types variableValues literal type) := by
  induction literal, type using literal_induction types with
  | «variable» node type =>
      rw [hconvert.variable]
      split
      · rename_i h
        refine .undefined fun haccepts => ?_
        obtain ⟨hdefined, hnull⟩ := Converter.accepts_variable_iff.mp haccepts
        simp_all
      · rename_i h
        refine .ok (Converter.accepts_variable_iff.mpr ?_)
        simp_all
  | null loc type =>
      rw [hconvert.null]
      cases hnonNull : isNonNullType type with
      | true =>
          refine .undefined fun h => ?_
          nomatch hnonNull.symm.trans (Converter.accepts_null_iff.mp h)
      | false => exact .ok (.null hnonNull)
  | nonNull literal ofType hpresent ih =>
      rw [hconvert.nonNull _ _ hpresent]
      exact ih.congr (Converter.accepts_nonNull_iff hpresent).symm
  | list values loc itemType ih =>
      rw [hconvert.list]
      refine (Settles.mapM fun value hmem => ?_).map.congr Converter.accepts_list_iff.symm
      rw [itemValue]
      split
      · rename_i hmissing
        refine .ok fun h => absurd ?_ h
        simpa using hmissing
      · rename_i hmissing
        have hgiven : ¬(isMissingVariable variableValues value = true ∧
            isNonNullType itemType = false) := by simpa using hmissing
        exact (ih value hmem).congr ⟨fun h _ => h, fun h => h hgiven⟩
  | single literal itemType hplain ih =>
      rw [hconvert.single _ _ hplain]
      exact ih.map.congr (Converter.accepts_single_iff hplain).symm
  | object fields loc name fieldDefs isOneOf hnamed ih =>
      rw [hconvert.object _ _ _ hnamed]
      have hfields := Settles.collectFields fun fieldDef hmem =>
        settles_field hdefaults hnamed hmem fun literal hsupplied =>
          ih fieldDef hmem literal (find_of_supplied hsupplied)
      have hiff : converter.Accepts types variableValues (.object fields loc) (.named name) ↔ _ :=
        Converter.accepts_object_iff hnamed
      refine Settles.congr ?_ hiff.symm
      split
      · rename_i hunknown
        refine .undefined fun h => ?_
        obtain ⟨node, hnode, hnone⟩ := List.any_eq_true.mp hunknown
        have hsome := h.1 node hnode
        simp_all
      · rename_i hunknown
        have hknown : ∀ node ∈ fieldNodes fields, (fieldDefs.get node.1).isSome = true := by
          simpa [Option.isSome_iff_ne_none] using hunknown
        refine ((hfields.bind fun entries hentries => ?_).congr (and_iff_right hknown).symm)
        have hnulls := nulls_collectFields hentries fun fieldDef hmem value hvalue =>
          hconvert.isNone_fieldValue hdefaults hnamed hmem hvalue
        have honeOf := isOneOfLiteral_iff hknown (hconvert.outName _ _ _ hnamed) hnulls
        rw [← honeOf]
        cases isOneOf with
        | false => exact .ok nofun
        | true =>
            cases isOneOfLiteral fieldDefs (fieldNodes fields) entries with
            | true => exact .ok fun _ => rfl
            | false => exact .undefined fun h => nomatch h rfl
  | other literal name hpresent hobject =>
      by_cases hinput : ∃ fieldDefs isOneOf, types.named name = .inputObject fieldDefs isOneOf
      · obtain ⟨fieldDefs, isOneOf, hnamed⟩ := hinput
        have hnoObject : ∀ fields loc, literal ≠ .object fields loc :=
          fun fields loc hliteral => hobject fields loc hliteral _ _ hnamed
        rw [hconvert.noObject _ _ _ hnamed _ hpresent hnoObject]
        exact .undefined (Converter.not_accepts_noObject hnamed hpresent hnoObject)
      · have hleaf : ∀ fieldDefs isOneOf, types.named name ≠ .inputObject fieldDefs isOneOf :=
          fun fieldDefs isOneOf hnamed => hinput ⟨fieldDefs, isOneOf, hnamed⟩
        rw [hconvert.leaf name hleaf _ hpresent]
        refine Settles.congr ?_ (Converter.accepts_leaf_iff hpresent hleaf).symm
        rw [Converter.takes]
        cases converter.parse (types.named name) literal with
        | none => exact .undefined nofun
        | some value =>
            cases value <;> first | exact .ok rfl | exact .undefined nofun

end Converts

end GraphqlCore.ValueLiterals
