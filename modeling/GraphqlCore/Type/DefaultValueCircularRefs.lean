import GraphqlCore.Data.CycleSearch
import GraphqlCore.Utilities.LiteralRejection

/-!
# Circular default values

The class `InputObjectDefaultValueCircularRefsValidator` of `type/validate.py`, which
searches for default values of input fields that need themselves.  A default value needs
those of the fields that it leaves out, in the objects in it at any depth.
-/

namespace GraphqlCore.ValueLiterals

open Language

variable {floats : FloatFormat} {Custom : Type}

/-! ## Input fields -/

/-- The input types of a schema, whose type map is finite. -/
structure InputSchema (floats : FloatFormat) (Custom : Type) extends
    InputTypes floats Custom where
  inputObjects : List Text
  mem_inputObjects : ∀ name fields isOneOf,
    named name = .inputObject fields isOneOf → name ∈ inputObjects

/-- The name of an input object type and that of one of its fields. -/
abbrev FieldKey := Text × Text

namespace InputTypes

variable (types : InputTypes floats Custom)

/-- The fields of an input object type, which other types do not have. -/
def inputFields (name : Text) : Dict Text (InputField floats) :=
  match types.named name with
  | .inputObject fields _ => fields
  | _ => Dict.empty

def isInputObject (name : Text) : Bool :=
  match types.named name with
  | .inputObject _ _ => true
  | _ => false

/-- The default value of an input field, with the input object type that the type of the
field is built from.  Only such a field can result in a cycle. -/
def defaultOf (key : FieldKey) : Option (Text × DefaultInput floats) :=
  ((types.inputFields key.1).get key.2).bind fun field =>
    let namedFieldType := field.type.getNamedType
    if types.isInputObject namedFieldType then
      field.default.map fun default => (namedFieldType, default)
    else none

end InputTypes

/-! ## The validator -/

namespace InputObjectDefaultValueCircularRefsValidator

structure State where
  /-- Already visited fields, so that cycles are not redundantly reported. -/
  visitedFields : List FieldKey := []
  fieldPath : List FieldKey := []
  /-- Positions in the path, `None` for fields that are not on it any more. -/
  fieldPathIndex : Dict FieldKey (Option ℕ) := Dict.empty
  errors : List Text := []

def fieldStr (key : FieldKey) : Text := key.1 ++ str "." ++ key.2

def circularReferenceMessage (key : FieldKey) (via : List FieldKey) : Text :=
  str "Invalid circular reference. The default value of Input Object field " ++
    fieldStr key ++ str " references itself" ++
    (if via.isEmpty then []
      else str " via the default values of: " ++
        (str ", ").intercalate (via.map fieldStr)) ++
    str "."

/-- The check of the default value of a field. -/
abbrev DetectField (floats : FloatFormat) :=
  InputField floats → Text → FieldKey → State → Option State

section Detect

variable (types : InputTypes floats Custom) (detectField : DetectField floats)

mutual

def detectValueDefaultValueCycle (inputObj : Text) (defaultValue : HostValue floats)
    (s : State) : Option State :=
  match defaultValue with
  | .iterable items => detectItems inputObj items s
  | .mapping true entries =>
      detectEntries inputObj entries (types.inputFields inputObj).items s
  | _ => some s
termination_by (sizeOf defaultValue, 0)

def detectItems (inputObj : Text) (items : List (HostValue floats)) (s : State) :
    Option State :=
  match items with
  | [] => some s
  | itemValue :: rest => do
      let s ← detectValueDefaultValueCycle inputObj itemValue s
      detectItems inputObj rest s
termination_by (sizeOf items, 0)

/-- The loop over the fields of the input object type. -/
def detectEntries (inputObj : Text) (entries : List (Text × HostValue floats))
    (fields : List (Text × InputField floats)) (s : State) : Option State :=
  match fields with
  | [] => some s
  | (fieldName, field) :: rest => do
      let namedFieldType := field.type.getNamedType
      let s ←
        (if types.isInputObject namedFieldType then
          match _h : Dict.find fieldName entries with
          | some fieldValue =>
              have := sizeOf_find_lt _h
              detectValueDefaultValueCycle namedFieldType fieldValue s
          | none => detectField field namedFieldType (inputObj, fieldName) s
        else some s)
      detectEntries inputObj entries rest s
termination_by (sizeOf entries, sizeOf fields)

end

mutual

def detectLiteralDefaultValueCycle (inputObj : Text) (defaultValue : ValueNode)
    (s : State) : Option State :=
  match defaultValue with
  | .list values _ => detectItemLiterals inputObj values s
  | .object fields _ =>
      have := sizeOf_fieldNodes_lt fields
      detectFieldNodes inputObj (fieldNodes fields) (types.inputFields inputObj).items s
  | _ => some s
termination_by (sizeOf defaultValue, 0)

def detectItemLiterals (inputObj : Text) (values : List ValueNode) (s : State) :
    Option State :=
  match values with
  | [] => some s
  | itemLiteral :: rest => do
      let s ← detectLiteralDefaultValueCycle inputObj itemLiteral s
      detectItemLiterals inputObj rest s
termination_by (sizeOf values, 0)

def detectFieldNodes (inputObj : Text) (nodes : List (Text × ValueNode))
    (fields : List (Text × InputField floats)) (s : State) : Option State :=
  match fields with
  | [] => some s
  | (fieldName, field) :: rest => do
      let namedFieldType := field.type.getNamedType
      let s ←
        (if types.isInputObject namedFieldType then
          match _h : Dict.find fieldName nodes with
          | some fieldLiteral =>
              have := sizeOf_find_lt _h
              detectLiteralDefaultValueCycle namedFieldType fieldLiteral s
          | none => detectField field namedFieldType (inputObj, fieldName) s
        else some s)
      detectFieldNodes inputObj nodes rest s
termination_by (sizeOf nodes, sizeOf fields)

end

/-- Check the default value of a field, with the function for those not on the path. -/
def detectFieldDefaultValueCycle
    (visitField : DefaultInput floats → Text → FieldKey → State → Option State) :
    DetectField floats := fun field fieldType key s =>
  match field.default with
  | none => some s
  | some defaultInput =>
      match (s.fieldPathIndex.get key).join with
      | some cycleIndex =>
          some { s with errors :=
            s.errors ++ [circularReferenceMessage key (s.fieldPath.drop cycleIndex)] }
      | none => visitField defaultInput fieldType key s

/-- Recurse into the default value of a field once, down to a depth. -/
def visitField : ℕ → DefaultInput floats → Text → FieldKey → State → Option State
  | 0, _, _, _, _ => none
  | depth + 1, defaultInput, fieldType, key, s =>
      if key ∈ s.visitedFields then some s
      else
        let s := { s with
          visitedFields := key :: s.visitedFields
          fieldPath := s.fieldPath ++ [key]
          fieldPathIndex := s.fieldPathIndex.set key (some (s.fieldPath.length + 1)) }
        let detectField := detectFieldDefaultValueCycle (visitField depth)
        let detected := match defaultInput with
          | .literal literal =>
              detectLiteralDefaultValueCycle types detectField fieldType literal s
          | .value value => detectValueDefaultValueCycle types detectField fieldType value s
        detected.map fun s =>
          { s with
            fieldPath := s.fieldPath.dropLast
            fieldPathIndex := s.fieldPathIndex.set key none }

end Detect

/-- The validator is called on all input object types: with an empty object, every field
is visited. -/
def validate (schema : InputSchema floats Custom) (depth : ℕ) : Option (List Text) :=
  (schema.inputObjects.foldlM (fun s inputObj =>
    detectValueDefaultValueCycle schema.toInputTypes
      (detectFieldDefaultValueCycle (visitField schema.toInputTypes depth)) inputObj
      (.mapping true []) s) {}).map State.errors

end InputObjectDefaultValueCircularRefsValidator

/-! ## The fields that a value leaves out -/

/-- How the entries of an object are looked up. -/
structure Reading (floats : FloatFormat) where
  entry : List (Text × HostValue floats) → Text → Option (HostValue floats)
  node : List (Text × ValueNode) → Text → Option ValueNode
  sizeOf_entry_lt : ∀ {entries name value}, entry entries name = some value →
    sizeOf value < sizeOf entries
  sizeOf_node_lt : ∀ {nodes name value}, node nodes name = some value →
    sizeOf value < sizeOf nodes

namespace Reading

/-- The entries that are there by name. -/
def named : Reading floats where
  entry entries name := Dict.find name entries
  node nodes name := Dict.find name nodes
  sizeOf_entry_lt h := sizeOf_find_lt h
  sizeOf_node_lt h := sizeOf_find_lt h

/-- The entries that have a value: they are not `Undefined`, nor variables without value. -/
def given (variableValues : Variables floats) : Reading floats where
  entry := ValueLiterals.given
  node nodes name :=
    (Dict.find name nodes).filter fun node => !isMissingVariable variableValues node
  sizeOf_entry_lt h := sizeOf_given_lt h
  sizeOf_node_lt h := sizeOf_find_lt (Option.filter_eq_some_iff.mp h).1

end Reading

section LeftOut

variable (types : InputTypes floats Custom) (reading : Reading floats)

mutual

/-- The fields that a value of an input object type leaves out, at any depth. -/
def leftOutOfValue (inputObj : Text) (value : HostValue floats) : List FieldKey :=
  match value with
  | .iterable items => leftOutOfItems inputObj items
  | .mapping true entries =>
      leftOutOfEntries inputObj entries (types.inputFields inputObj).items
  | _ => []
termination_by (sizeOf value, 0)

def leftOutOfItems (inputObj : Text) (items : List (HostValue floats)) : List FieldKey :=
  match items with
  | [] => []
  | item :: rest => leftOutOfValue inputObj item ++ leftOutOfItems inputObj rest
termination_by (sizeOf items, 0)

def leftOutOfEntries (inputObj : Text) (entries : List (Text × HostValue floats))
    (fields : List (Text × InputField floats)) : List FieldKey :=
  match fields with
  | [] => []
  | (fieldName, field) :: rest =>
      (match _h : reading.entry entries fieldName with
        | some value =>
            have := reading.sizeOf_entry_lt _h
            leftOutOfValue field.type.getNamedType value
        | none => [(inputObj, fieldName)]) ++
        leftOutOfEntries inputObj entries rest
termination_by (sizeOf entries, sizeOf fields)

end

mutual

/-- The fields that a literal of an input object type leaves out, at any depth. -/
def leftOutOfLiteral (inputObj : Text) (literal : ValueNode) : List FieldKey :=
  match literal with
  | .list values _ => leftOutOfItemLiterals inputObj values
  | .object fields _ =>
      have := sizeOf_fieldNodes_lt fields
      leftOutOfNodes inputObj (fieldNodes fields) (types.inputFields inputObj).items
  | _ => []
termination_by (sizeOf literal, 0)

def leftOutOfItemLiterals (inputObj : Text) (values : List ValueNode) : List FieldKey :=
  match values with
  | [] => []
  | value :: rest => leftOutOfLiteral inputObj value ++ leftOutOfItemLiterals inputObj rest
termination_by (sizeOf values, 0)

def leftOutOfNodes (inputObj : Text) (nodes : List (Text × ValueNode))
    (fields : List (Text × InputField floats)) : List FieldKey :=
  match fields with
  | [] => []
  | (fieldName, field) :: rest =>
      (match _h : reading.node nodes fieldName with
        | some literal =>
            have := reading.sizeOf_node_lt _h
            leftOutOfLiteral field.type.getNamedType literal
        | none => [(inputObj, fieldName)]) ++
        leftOutOfNodes inputObj nodes rest
termination_by (sizeOf nodes, sizeOf fields)

end

/-- The fields that the default value of a field leaves out. -/
def leftOutOfDefault (key : FieldKey) : List FieldKey :=
  match types.defaultOf key with
  | none => []
  | some (fieldType, .value value) => leftOutOfValue types reading fieldType value
  | some (fieldType, .literal literal) => leftOutOfLiteral types reading fieldType literal

/-- The default value of the first field, expanded with the default values of the fields
that it leaves out, reaches that of the second one in one step. -/
def DefaultReaches (key target : FieldKey) : Prop :=
  target ∈ leftOutOfDefault types reading key ∧ (types.defaultOf target).isSome

/-- The graph of default values. -/
def defaultEdges (key : FieldKey) : List (FieldKey × FieldKey) :=
  (leftOutOfDefault types reading key).filterMap fun target =>
    (types.defaultOf target).map fun _ => (target, target)

variable {types reading}

theorem edge_defaultEdges :
    CycleSearch.Edge (defaultEdges types reading) = DefaultReaches types reading := by
  funext key target
  refine propext ⟨?_, ?_⟩
  · rintro ⟨label, hmem⟩
    obtain ⟨other, hother, hsome⟩ := List.mem_filterMap.mp hmem
    obtain ⟨default, hdefault, heq⟩ := Option.map_eq_some_iff.mp hsome
    obtain ⟨rfl, rfl⟩ := Prod.mk.inj heq
    exact ⟨hother, by rw [hdefault]; rfl⟩
  · rintro ⟨hmem, hsome⟩
    obtain ⟨default, hdefault⟩ := Option.isSome_iff_exists.mp hsome
    exact ⟨target, List.mem_filterMap.mpr ⟨target, hmem, by rw [hdefault]; rfl⟩⟩

mutual

/-- Only the objects of an input object type leave fields out. -/
theorem leftOutOfValue_eq_nil {inputObj : Text} (h : types.inputFields inputObj = Dict.empty)
    (value : HostValue floats) : leftOutOfValue types reading inputObj value = [] := by
  rw [leftOutOfValue.eq_def]
  split
  · exact leftOutOfItems_eq_nil h _
  · rw [h, Dict.empty, leftOutOfEntries]
  · rfl
termination_by (sizeOf value, 0)

theorem leftOutOfItems_eq_nil {inputObj : Text} (h : types.inputFields inputObj = Dict.empty)
    (items : List (HostValue floats)) : leftOutOfItems types reading inputObj items = [] := by
  match items with
  | [] => rw [leftOutOfItems]
  | item :: rest =>
      rw [leftOutOfItems, leftOutOfValue_eq_nil h item, leftOutOfItems_eq_nil h rest]
      rfl
termination_by (sizeOf items, 0)

end

mutual

theorem leftOutOfLiteral_eq_nil {inputObj : Text}
    (h : types.inputFields inputObj = Dict.empty) (literal : ValueNode) :
    leftOutOfLiteral types reading inputObj literal = [] := by
  rw [leftOutOfLiteral.eq_def]
  split
  · exact leftOutOfItemLiterals_eq_nil h _
  · rw [h, Dict.empty, leftOutOfNodes]
  · rfl
termination_by (sizeOf literal, 0)

theorem leftOutOfItemLiterals_eq_nil {inputObj : Text}
    (h : types.inputFields inputObj = Dict.empty) (values : List ValueNode) :
    leftOutOfItemLiterals types reading inputObj values = [] := by
  match values with
  | [] => rw [leftOutOfItemLiterals]
  | value :: rest =>
      rw [leftOutOfItemLiterals, leftOutOfLiteral_eq_nil h value,
        leftOutOfItemLiterals_eq_nil h rest]
      rfl
termination_by (sizeOf values, 0)

end

end LeftOut

/-! ## All fields of a schema -/

namespace InputSchema

variable (schema : InputSchema floats Custom)

/-- The fields of the input object types. -/
def fieldKeys : List FieldKey :=
  schema.inputObjects.flatMap fun inputObj =>
    (schema.inputFields inputObj).keys.map fun fieldName => (inputObj, fieldName)

variable {schema}

theorem mem_fieldKeys {key : FieldKey} {field : InputField floats}
    (h : (schema.inputFields key.1).get key.2 = some field) : key ∈ schema.fieldKeys := by
  have hinput : key.1 ∈ schema.inputObjects := by
    cases hnamed : schema.named key.1 with
    | inputObject fields isOneOf => exact schema.mem_inputObjects _ _ _ hnamed
    | scalar | customScalar | «enum» =>
        rw [InputTypes.inputFields, hnamed] at h
        cases h
  refine List.mem_flatMap.mpr ⟨key.1, hinput, List.mem_map.mpr ⟨key.2, ?_, rfl⟩⟩
  rw [Dict.mem_keys_iff, h]
  rfl

theorem mem_fieldKeys_of_isSome {key : FieldKey}
    (h : (schema.defaultOf key).isSome) : key ∈ schema.fieldKeys := by
  cases hfield : (schema.inputFields key.1).get key.2 with
  | some field => exact mem_fieldKeys hfield
  | none =>
      rw [InputTypes.defaultOf, hfield] at h
      cases h

/-- A field with edges has a default value. -/
theorem mem_fieldKeys_of_ne_nil {reading : Reading floats} {key : FieldKey}
    (h : defaultEdges schema.toInputTypes reading key ≠ []) : key ∈ schema.fieldKeys := by
  cases hdefault : schema.defaultOf key with
  | some default => exact mem_fieldKeys_of_isSome (by rw [hdefault]; rfl)
  | none => exact absurd (by simp [defaultEdges, leftOutOfDefault, hdefault]) h

theorem mem_fieldKeys_of_edge {reading : Reading floats} {key : FieldKey}
    {edge : FieldKey × FieldKey}
    (h : edge ∈ defaultEdges schema.toInputTypes reading key) :
    edge.2 ∈ schema.fieldKeys := by
  obtain ⟨target, -, hsome⟩ := List.mem_filterMap.mp h
  obtain ⟨default, hdefault, rfl⟩ := Option.map_eq_some_iff.mp hsome
  exact mem_fieldKeys_of_isSome (by rw [hdefault]; rfl)

end InputSchema

/-! ## What the validator visits -/

namespace InputObjectDefaultValueCircularRefsValidator

section Visits

variable (types : InputTypes floats Custom)
  (visit : DefaultInput floats → Text → FieldKey → State → Option State)

/-- The check of a field that is left out. -/
def detectKey (s : State) (key : FieldKey) : Option State :=
  match types.defaultOf key with
  | none => some s
  | some (fieldType, defaultInput) =>
      match (s.fieldPathIndex.get key).join with
      | some cycleIndex =>
          some { s with errors :=
            s.errors ++ [circularReferenceMessage key (s.fieldPath.drop cycleIndex)] }
      | none => visit defaultInput fieldType key s

variable {types visit}

theorem inputFields_of_not {name : Text} (h : types.isInputObject name = false) :
    types.inputFields name = Dict.empty := by
  unfold InputTypes.isInputObject at h
  unfold InputTypes.inputFields
  split <;> simp_all

theorem detectField_eq {inputObj fieldName : Text} {field : InputField floats} {s : State}
    (hfield : (types.inputFields inputObj).get fieldName = some field)
    (hobject : types.isInputObject field.type.getNamedType = true) :
    detectFieldDefaultValueCycle visit field field.type.getNamedType (inputObj, fieldName) s =
      detectKey types visit s (inputObj, fieldName) := by
  unfold detectFieldDefaultValueCycle detectKey InputTypes.defaultOf
  rw [hfield]
  simp only [Option.bind_some, hobject, if_true]
  cases field.default <;> rfl

theorem detectKey_eq_self {inputObj fieldName : Text} {field : InputField floats} {s : State}
    (hfield : (types.inputFields inputObj).get fieldName = some field)
    (hobject : types.isInputObject field.type.getNamedType = false) :
    detectKey types visit s (inputObj, fieldName) = some s := by
  unfold detectKey InputTypes.defaultOf
  rw [hfield]
  simp only [Option.bind_some, hobject, Bool.false_eq_true, if_false]

theorem foldlM_append {keys keys' : List FieldKey} {s : State} :
    (keys ++ keys').foldlM (detectKey types visit) s =
      (keys.foldlM (detectKey types visit) s).bind fun s =>
        keys'.foldlM (detectKey types visit) s :=
  List.foldlM_append

theorem foldlM_single {key : FieldKey} {s : State} :
    [key].foldlM (detectKey types visit) s = detectKey types visit s key := by
  simp

mutual

/-- A value is checked by a loop over the fields that it leaves out. -/
theorem detectValue_eq (inputObj : Text) (value : HostValue floats) (s : State) :
    detectValueDefaultValueCycle types (detectFieldDefaultValueCycle visit) inputObj value s =
      (leftOutOfValue types .named inputObj value).foldlM (detectKey types visit) s := by
  rw [detectValueDefaultValueCycle.eq_def, leftOutOfValue.eq_def]
  split
  · exact detectItems_eq inputObj _ s
  · exact detectEntries_eq inputObj _ _ s fun entry hmem => Dict.mem_items_iff.mp hmem
  · rfl
termination_by (sizeOf value, 0)

theorem detectItems_eq (inputObj : Text) (items : List (HostValue floats)) (s : State) :
    detectItems types (detectFieldDefaultValueCycle visit) inputObj items s =
      (leftOutOfItems types .named inputObj items).foldlM (detectKey types visit) s := by
  match items with
  | [] =>
      rw [detectItems, leftOutOfItems]
      rfl
  | item :: rest =>
      rw [detectItems, leftOutOfItems, foldlM_append, ← detectValue_eq inputObj item s]
      exact congrArg _ (funext fun s => detectItems_eq inputObj rest s)
termination_by (sizeOf items, 0)

theorem detectEntries_eq (inputObj : Text) (entries : List (Text × HostValue floats))
    (fields : List (Text × InputField floats)) (s : State)
    (hfields : ∀ entry ∈ fields, (types.inputFields inputObj).get entry.1 = some entry.2) :
    detectEntries types (detectFieldDefaultValueCycle visit) inputObj entries fields s =
      (leftOutOfEntries types .named inputObj entries fields).foldlM
        (detectKey types visit) s := by
  match fields with
  | [] =>
      rw [detectEntries, leftOutOfEntries]
      rfl
  | (fieldName, field) :: rest =>
      rw [List.forall_mem_cons] at hfields
      rw [detectEntries, leftOutOfEntries, foldlM_append]
      refine congrArg₂ _ ?_ (funext fun s =>
        detectEntries_eq inputObj entries rest s hfields.2)
      cases hobject : types.isInputObject field.type.getNamedType with
      | true =>
          simp only [if_true]
          split
          · rename_i value hfind
            have hlt := sizeOf_find_lt hfind
            split
            · rename_i value' hfind'
              obtain rfl : value = value' := Option.some.inj (hfind.symm.trans hfind')
              exact detectValue_eq _ value s
            · rename_i hfind'
              cases hfind.symm.trans hfind'
          · rename_i hfind
            split
            · rename_i value' hfind'
              cases hfind.symm.trans hfind'
            · rw [foldlM_single]
              exact detectField_eq hfields.1 hobject
      | false =>
          simp only [Bool.false_eq_true, if_false]
          split
          · rw [leftOutOfValue_eq_nil (inputFields_of_not hobject)]
            rfl
          · rw [foldlM_single]
            exact (detectKey_eq_self hfields.1 hobject).symm
termination_by (sizeOf entries, sizeOf fields)

end

mutual

/-- A literal is checked by a loop over the fields that it leaves out. -/
theorem detectLiteral_eq (inputObj : Text) (literal : ValueNode) (s : State) :
    detectLiteralDefaultValueCycle types (detectFieldDefaultValueCycle visit) inputObj
        literal s =
      (leftOutOfLiteral types .named inputObj literal).foldlM (detectKey types visit) s := by
  rw [detectLiteralDefaultValueCycle.eq_def, leftOutOfLiteral.eq_def]
  match literal with
  | .list values _ => exact detectItemLiterals_eq inputObj values s
  | .object fields _ =>
      have hlt := sizeOf_fieldNodes_lt fields
      exact detectFieldNodes_eq inputObj (fieldNodes fields) _ s
        fun entry hmem => Dict.mem_items_iff.mp hmem
  | .variable _ | .int _ _ | .float _ _ | .string _ | .boolean _ _ | .null _ | .enum _ _ => rfl
termination_by (sizeOf literal, 0)

theorem detectItemLiterals_eq (inputObj : Text) (values : List ValueNode) (s : State) :
    detectItemLiterals types (detectFieldDefaultValueCycle visit) inputObj values s =
      (leftOutOfItemLiterals types .named inputObj values).foldlM
        (detectKey types visit) s := by
  match values with
  | [] =>
      rw [detectItemLiterals, leftOutOfItemLiterals]
      rfl
  | value :: rest =>
      rw [detectItemLiterals, leftOutOfItemLiterals, foldlM_append,
        ← detectLiteral_eq inputObj value s]
      exact congrArg _ (funext fun s => detectItemLiterals_eq inputObj rest s)
termination_by (sizeOf values, 0)

theorem detectFieldNodes_eq (inputObj : Text) (nodes : List (Text × ValueNode))
    (fields : List (Text × InputField floats)) (s : State)
    (hfields : ∀ entry ∈ fields, (types.inputFields inputObj).get entry.1 = some entry.2) :
    detectFieldNodes types (detectFieldDefaultValueCycle visit) inputObj nodes fields s =
      (leftOutOfNodes types .named inputObj nodes fields).foldlM
        (detectKey types visit) s := by
  match fields with
  | [] =>
      rw [detectFieldNodes, leftOutOfNodes]
      rfl
  | (fieldName, field) :: rest =>
      rw [List.forall_mem_cons] at hfields
      rw [detectFieldNodes, leftOutOfNodes, foldlM_append]
      refine congrArg₂ _ ?_ (funext fun s =>
        detectFieldNodes_eq inputObj nodes rest s hfields.2)
      cases hobject : types.isInputObject field.type.getNamedType with
      | true =>
          simp only [if_true]
          split
          · rename_i literal hfind
            have hlt := sizeOf_find_lt hfind
            split
            · rename_i literal' hfind'
              obtain rfl : literal = literal' :=
                Option.some.inj (hfind.symm.trans hfind')
              exact detectLiteral_eq _ literal s
            · rename_i hfind'
              cases hfind.symm.trans hfind'
          · rename_i hfind
            split
            · rename_i literal' hfind'
              cases hfind.symm.trans hfind'
            · rw [foldlM_single]
              exact detectField_eq hfields.1 hobject
      | false =>
          simp only [Bool.false_eq_true, if_false]
          split
          · rw [leftOutOfLiteral_eq_nil (inputFields_of_not hobject)]
            rfl
          · rw [foldlM_single]
            exact (detectKey_eq_self hfields.1 hobject).symm
termination_by (sizeOf nodes, sizeOf fields)

end

end Visits

/-! ## The validator runs the search -/

/-- The validator and the search are in the same state. -/
structure InStep (s : State) (t : CycleSearch.State FieldKey FieldKey) : Prop where
  visited : s.visitedFields = t.visited
  path : s.fieldPath = t.path
  index : ∀ key, (s.fieldPathIndex.get key).join = t.index key
  errors : s.errors = t.reports.map fun report =>
    circularReferenceMessage report.1 report.2.dropLast

section Simulation

variable {types : InputTypes floats Custom} {s : State}
  {t : CycleSearch.State FieldKey FieldKey}

theorem InStep.start : InStep {} .start where
  visited := rfl
  path := rfl
  index := fun _ => rfl
  errors := rfl

theorem InStep.enter (h : InStep s t) (key : FieldKey) :
    InStep { s with
        visitedFields := key :: s.visitedFields
        fieldPath := s.fieldPath ++ [key]
        fieldPathIndex := s.fieldPathIndex.set key (some (s.fieldPath.length + 1)) }
      ((t.push key).enter key) where
  visited := congrArg (key :: ·) h.visited
  path := congrArg (· ++ [key]) h.path
  index := by
    intro other
    by_cases heq : other = key
    · rw [heq, Dict.get_set_self, CycleSearch.State.index_enter_self, h.path]
      simp [CycleSearch.State.push]
    · rw [Dict.get_set, if_neg heq, CycleSearch.State.index_enter_of_ne _ heq]
      exact h.index other
  errors := h.errors

theorem InStep.leave (h : InStep s t) (key : FieldKey) :
    InStep { s with
        fieldPath := s.fieldPath.dropLast
        fieldPathIndex := s.fieldPathIndex.set key none }
      (t.leave key).pop where
  visited := h.visited
  path := congrArg List.dropLast h.path
  index := by
    intro other
    by_cases heq : other = key
    · rw [heq, Dict.get_set_self]
      exact (t.index_leave_self key).symm
    · rw [Dict.get_set, if_neg heq, h.index]
      exact (t.index_leave_of_ne heq).symm
  errors := h.errors

/-- The path of the search ends with the field that closes the cycle. -/
theorem dropLast_drop_concat {α : Type} (path : List α) (a : α) (idx : ℕ) :
    ((path ++ [a]).drop idx).dropLast = path.drop idx := by
  rcases Nat.lt_or_ge path.length idx with hlt | hle
  · have hlength : (path ++ [a]).length ≤ idx := by
      rw [List.length_append]
      exact hlt
    rw [List.drop_eq_nil_of_le hlength, List.drop_eq_nil_of_le (Nat.le_of_lt hlt)]
    rfl
  · rw [List.drop_append_of_le_length hle, List.dropLast_concat]

theorem InStep.report (h : InStep s t) (key : FieldKey) (cycleIndex : ℕ) :
    InStep { s with errors :=
        s.errors ++ [circularReferenceMessage key (s.fieldPath.drop cycleIndex)] }
      ((t.push key).report key cycleIndex).pop where
  visited := h.visited
  path := by
    rw [h.path]
    exact (List.dropLast_concat ..).symm
  index := h.index
  errors := by
    have hpath : ((t.push key).path.drop cycleIndex).dropLast = s.fieldPath.drop cycleIndex := by
      rw [h.path]
      exact dropLast_drop_concat t.path key cycleIndex
    have hreports : ((t.push key).report key cycleIndex).pop.reports =
        t.reports ++ [(key, (t.push key).path.drop cycleIndex)] := rfl
    rw [hreports, List.map_append, ← h.errors, List.map_singleton, hpath]

variable {visit : DefaultInput floats → Text → FieldKey → State → Option State}
  {visit' : FieldKey → CycleSearch.State FieldKey FieldKey →
    Option (CycleSearch.State FieldKey FieldKey)}

theorem detectKeys_inStep
    (hvisit : ∀ key fieldType defaultInput s t,
      types.defaultOf key = some (fieldType, defaultInput) → InStep s t →
      Option.Rel InStep (visit defaultInput fieldType key s)
        ((visit' key (t.push key)).map CycleSearch.State.pop))
    (keys : List FieldKey) (h : InStep s t) :
    Option.Rel InStep (keys.foldlM (detectKey types visit) s)
      ((keys.filterMap fun target =>
        (types.defaultOf target).map fun _ => (target, target)).foldlM
        (CycleSearch.follow visit') t) := by
  refine CycleSearch.rel_foldlM_filterMap ?_ ?_ h
  · intro key hkey s
    rw [Option.map_eq_none_iff] at hkey
    rw [detectKey, hkey]
  · intro key edge hedge s t h
    obtain ⟨⟨fieldType, defaultInput⟩, hdefault, rfl⟩ := Option.map_eq_some_iff.mp hedge
    rw [detectKey, hdefault, CycleSearch.follow]
    simp only [h.index]
    cases hidx : t.index key with
    | none => exact hvisit key fieldType defaultInput s t hdefault h
    | some cycleIndex => exact .some (h.report key cycleIndex)

theorem visitField_inStep (depth : ℕ) (key : FieldKey) (fieldType : Text)
    (defaultInput : DefaultInput floats) (s : State)
    (t : CycleSearch.State FieldKey FieldKey)
    (hdefault : types.defaultOf key = some (fieldType, defaultInput)) (h : InStep s t) :
    Option.Rel InStep (visitField types depth defaultInput fieldType key s)
      ((CycleSearch.search (defaultEdges types .named) depth key (t.push key)).map
        CycleSearch.State.pop) := by
  induction depth generalizing key fieldType defaultInput s t with
  | zero => exact .none
  | succ depth ih =>
      rw [visitField, CycleSearch.search, h.visited]
      by_cases hvisited : key ∈ t.visited
      · rw [if_pos hvisited, if_pos (show key ∈ (t.push key).visited from hvisited)]
        have hpop : (t.push key).pop = t := by
          have hpath : (t.path ++ [key]).dropLast = t.path := List.dropLast_concat ..
          rw [CycleSearch.State.pop, CycleSearch.State.push, hpath]
        rw [Option.map_some, hpop]
        exact .some h
      · rw [if_neg hvisited, if_neg (show key ∉ (t.push key).visited from hvisited),
          Option.map_map]
        have hentered := h.enter key
        rw [h.visited] at hentered
        have hloop := detectKeys_inStep ih (leftOutOfDefault types .named key) hentered
        have hleave := CycleSearch.rel_map hloop fun _ _ h => h.leave key
        unfold leftOutOfDefault at hleave
        simp only [hdefault] at hleave
        cases defaultInput with
        | literal literal =>
            simp only [detectLiteral_eq]
            unfold defaultEdges leftOutOfDefault
            simp only [hdefault]
            exact hleave
        | value value =>
            simp only [detectValue_eq]
            unfold defaultEdges leftOutOfDefault
            simp only [hdefault]
            exact hleave

/-- An empty object leaves out all fields. -/
theorem leftOutOfEntries_empty (reading : Reading floats)
    (hempty : ∀ name, reading.entry [] name = none) (inputObj : Text)
    (fields : List (Text × InputField floats)) :
    leftOutOfEntries types reading inputObj [] fields =
      fields.map fun entry => (inputObj, entry.1) := by
  induction fields with
  | nil => rw [leftOutOfEntries, List.map_nil]
  | cons entry rest ih =>
      obtain ⟨fieldName, field⟩ := entry
      rw [leftOutOfEntries, ih]
      split
      · rename_i value hvalue
        rw [hempty] at hvalue
        cases hvalue
      · rfl

theorem calls_eq (inputObjects : List Text) (s : State) :
    inputObjects.foldlM (fun s inputObj => detectValueDefaultValueCycle types
        (detectFieldDefaultValueCycle visit) inputObj (.mapping true []) s) s =
      (inputObjects.flatMap fun inputObj => (types.inputFields inputObj).keys.map
        fun fieldName => (inputObj, fieldName)).foldlM (detectKey types visit) s := by
  induction inputObjects generalizing s with
  | nil => rfl
  | cons inputObj rest ih =>
      rw [List.foldlM_cons, List.flatMap_cons, foldlM_append, detectValue_eq,
        leftOutOfValue, leftOutOfEntries_empty _ (fun _ => rfl), Dict.keys, List.map_map]
      exact congrArg _ (funext ih)

end Simulation

section Reports

variable (schema : InputSchema floats Custom)

/-- The edges that the search starts with. -/
abbrev defaultStarts : List (FieldKey × FieldKey) :=
  schema.fieldKeys.filterMap fun target =>
    (schema.defaultOf target).map fun _ => (target, target)

theorem mem_defaultStarts {key : FieldKey}
    (h : defaultEdges schema.toInputTypes .named key ≠ []) :
    ∃ edge ∈ defaultStarts schema, edge.2 = key := by
  have hkey : (schema.defaultOf key).isSome := by
    cases hdefault : schema.defaultOf key with
    | some default => rfl
    | none => exact absurd (by simp [defaultEdges, leftOutOfDefault, hdefault]) h
  obtain ⟨default, hdefault⟩ := Option.isSome_iff_exists.mp hkey
  refine ⟨(key, key), List.mem_filterMap.mpr ⟨key, ?_, by rw [hdefault]; rfl⟩, rfl⟩
  exact InputSchema.mem_fieldKeys_of_isSome hkey

theorem mem_fieldKeys_of_defaultStarts {edge : FieldKey × FieldKey}
    (h : edge ∈ defaultStarts schema) : edge.2 ∈ schema.fieldKeys := by
  obtain ⟨target, htarget, hsome⟩ := List.mem_filterMap.mp h
  obtain ⟨default, -, rfl⟩ := Option.map_eq_some_iff.mp hsome
  exact htarget

/-- The validator reports an error exactly if there is a cycle of default values that uses
the entries of objects by name. -/
theorem validate_reports (depth : ℕ) (hdepth : schema.fieldKeys.length < depth) :
    ∃ errors, validate schema depth = some errors ∧
      (errors ≠ [] ↔ ∃ key, Relation.TransGen
        (DefaultReaches schema.toInputTypes .named) key key) := by
  have hclosed : ∀ key ∈ schema.fieldKeys,
      ∀ edge ∈ defaultEdges schema.toInputTypes .named key, edge.2 ∈ schema.fieldKeys :=
    fun _ _ _ => InputSchema.mem_fieldKeys_of_edge
  obtain ⟨t, hrun, hcycle, -⟩ := CycleSearch.followAll_reports hclosed hdepth
    (fun _ => mem_fieldKeys_of_defaultStarts schema) fun _ => mem_defaultStarts schema
  have hrel : Option.Rel InStep
      (schema.fieldKeys.foldlM (detectKey schema.toInputTypes
        (visitField schema.toInputTypes depth)) {})
      (CycleSearch.followAll (defaultEdges schema.toInputTypes .named) depth
        (defaultStarts schema) .start) :=
    detectKeys_inStep (visitField_inStep depth) schema.fieldKeys InStep.start
  rw [hrun] at hrel
  obtain ⟨s, hvalidate, hstep⟩ : ∃ s, schema.fieldKeys.foldlM (detectKey schema.toInputTypes
      (visitField schema.toInputTypes depth)) {} = some s ∧ InStep s t := by
    cases hs : schema.fieldKeys.foldlM (detectKey schema.toInputTypes
        (visitField schema.toInputTypes depth)) {} with
    | some s =>
        rw [hs] at hrel
        cases hrel with
        | some hstep => exact ⟨s, rfl, hstep⟩
    | none =>
        rw [hs] at hrel
        cases hrel
  refine ⟨s.errors, ?_, ?_⟩
  · rw [validate, calls_eq]
    exact congrArg (Option.map State.errors) hvalidate
  · rw [← edge_defaultEdges, ← hcycle, hstep.errors, Ne, List.map_eq_nil_iff]

end Reports

end InputObjectDefaultValueCircularRefsValidator

end GraphqlCore.ValueLiterals
