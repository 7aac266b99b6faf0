import GraphqlCore.Data.CycleSearch
import GraphqlCore.Type.Schema

/-!
# Circular references of input objects

The class `InputObjectNonNullCircularRefsValidator` of `type/validate.py`, which searches
for input objects that contain themselves in fields of Non-Null type.  It runs in step
with the search of a graph whose edges are these fields.
-/

namespace GraphqlCore

/-! ## Input fields -/

namespace GraphQLSchema

variable (schema : GraphQLSchema)

/-- The fields of an input object type. -/
def inputFieldsOf (name : Text) : Option (Dict Text GraphQLInputField) :=
  match schema.getType name with
  | some (.inputObject fields _ _) => some fields
  | _ => none

def isInputObjectType (name : Text) : Bool := (schema.inputFieldsOf name).isSome

/-- The input object types of the type map, in its order. -/
def inputObjectTypes : List Text := schema.typeMap.keys.filter schema.isInputObjectType

end GraphQLSchema

/-- The input object type that a Non-Null type refers to, unless it is in a list. -/
def nonNullInputObject (schema : GraphQLSchema) (type : GraphQLType) : Option Text :=
  match type with
  | .nonNull (.named name) => if schema.isInputObjectType name then some name else none
  | _ => none

/-! ## The validator -/

namespace InputObjectNonNullCircularRefsValidator

structure State where
  /-- Already visited types, so that cycles are not redundantly reported. -/
  visitedTypes : List Text := []
  fieldPath : List Text := []
  fieldPathIndexByTypeName : Dict Text ℕ := Dict.empty
  errors : List Text := []

def fieldStr (inputObj fieldName : Text) : Text := inputObj ++ str "." ++ fieldName

def circularReferenceMessage (fieldType : Text) (cyclePath : List Text) : Text :=
  str "Invalid circular reference. The Input Object " ++ fieldType ++
    str " references itself" ++
    (if cyclePath.length > 1 then str " via the non-null fields:"
      else str " in the non-null field") ++
    str " " ++ (str ", ").intercalate cyclePath ++ str "."

/-- The body of the loop over the fields. -/
def followField (schema : GraphQLSchema) (call : Text → State → Option State)
    (inputObj : Text) (s : State) (entry : Text × GraphQLInputField) : Option State :=
  match nonNullInputObject schema entry.2.type with
  | none => some s
  | some fieldType =>
      let cycleIndex := s.fieldPathIndexByTypeName.get fieldType
      let s := { s with fieldPath := s.fieldPath ++ [fieldStr inputObj entry.1] }
      let visited :=
        match cycleIndex with
        | none => call fieldType s
        | some cycleIndex =>
            let cyclePath := s.fieldPath.drop cycleIndex
            some { s with
              errors := s.errors ++ [circularReferenceMessage fieldType cyclePath] }
      visited.map fun s => { s with fieldPath := s.fieldPath.dropLast }

/-- Detect cycles recursively, down to a depth. -/
def call (schema : GraphQLSchema) : ℕ → Text → State → Option State
  | 0, _, _ => none
  | depth + 1, name, s =>
      if name ∈ s.visitedTypes then some s
      else
        let s := { s with
          visitedTypes := name :: s.visitedTypes
          fieldPathIndexByTypeName :=
            s.fieldPathIndexByTypeName.set name s.fieldPath.length }
        let fields := ((schema.inputFieldsOf name).getD Dict.empty).items
        (fields.foldlM (followField schema (call schema depth) name) s).map fun s =>
          { s with fieldPathIndexByTypeName := s.fieldPathIndexByTypeName.pop name }

/-- The validator is called on all input object types. -/
def validate (schema : GraphQLSchema) (depth : ℕ) : Option (List Text) :=
  (schema.inputObjectTypes.foldlM (fun s name => call schema depth name s) {}).map
    State.errors

end InputObjectNonNullCircularRefsValidator

/-! ## The graph of Non-Null fields -/

/-- The edges at an input object type, labelled by their fields. -/
def nonNullFields (schema : GraphQLSchema) (name : Text) : List (Text × Text) :=
  ((schema.inputFieldsOf name).getD Dict.empty).items.filterMap fun entry =>
    (nonNullInputObject schema entry.2.type).map fun fieldType =>
      (InputObjectNonNullCircularRefsValidator.fieldStr name entry.1, fieldType)

/-- A field of the first input object has the type Non-Null of the second one. -/
def HasNonNullField (schema : GraphQLSchema) (name target : Text) : Prop :=
  ∃ fields fieldName field, schema.inputFieldsOf name = some fields ∧
    fields.get fieldName = some field ∧ field.type = .nonNull (.named target) ∧
    schema.isInputObjectType target

section Graph

variable {schema : GraphQLSchema}

theorem nonNullInputObject_eq_some {type : GraphQLType} {target : Text} :
    nonNullInputObject schema type = some target ↔
      type = .nonNull (.named target) ∧ schema.isInputObjectType target := by
  unfold nonNullInputObject
  split
  · rename_i name
    by_cases h : schema.isInputObjectType name
    · simp only [h, if_true, Option.some_inj, GraphQLType.nonNull.injEq,
        GraphQLType.named.injEq]
      exact ⟨fun heq => ⟨heq, heq ▸ h⟩, And.left⟩
    · simp only [h, Bool.false_eq_true, if_false, GraphQLType.nonNull.injEq,
        GraphQLType.named.injEq]
      exact ⟨nofun, fun ⟨heq, htarget⟩ => absurd (heq ▸ htarget) h⟩
  · rename_i hother
    exact ⟨nofun, fun ⟨heq, _⟩ => absurd heq (hother target)⟩

theorem edge_nonNullFields :
    CycleSearch.Edge (nonNullFields schema) = HasNonNullField schema := by
  funext name target
  refine propext ⟨?_, ?_⟩
  · rintro ⟨label, hmem⟩
    obtain ⟨⟨fieldName, field⟩, hentry, hsome⟩ := List.mem_filterMap.mp hmem
    obtain ⟨fieldType, hfieldType, heq⟩ := Option.map_eq_some_iff.mp hsome
    cases heq
    obtain ⟨htype, htarget⟩ := nonNullInputObject_eq_some.mp hfieldType
    cases hfields : schema.inputFieldsOf name with
    | none =>
        rw [hfields] at hentry
        cases hentry
    | some fields =>
        rw [hfields] at hentry
        exact ⟨fields, fieldName, field, hfields, Dict.mem_items_iff.mp hentry, htype, htarget⟩
  · rintro ⟨fields, fieldName, field, hfields, hfield, htype, htarget⟩
    refine ⟨InputObjectNonNullCircularRefsValidator.fieldStr name fieldName,
      List.mem_filterMap.mpr ⟨(fieldName, field), ?_, ?_⟩⟩
    · rw [hfields]
      exact Dict.mem_items_iff.mpr hfield
    · rw [nonNullInputObject_eq_some.mpr ⟨htype, htarget⟩]
      rfl

theorem mem_inputObjectTypes {name : Text} :
    name ∈ schema.inputObjectTypes ↔ schema.isInputObjectType name := by
  rw [GraphQLSchema.inputObjectTypes, List.mem_filter, and_iff_right_iff_imp]
  intro h
  rw [Dict.mem_keys_iff]
  cases htype : schema.typeMap.get name with
  | some type => rfl
  | none =>
      simp [GraphQLSchema.isInputObjectType, GraphQLSchema.inputFieldsOf,
        GraphQLSchema.getType, htype] at h

/-- Fields lead from input object types to such types. -/
theorem mem_inputObjectTypes_of_edge {name : Text} {edge : Text × Text}
    (h : edge ∈ nonNullFields schema name) : edge.2 ∈ schema.inputObjectTypes := by
  obtain ⟨label, target⟩ := edge
  have hedge : CycleSearch.Edge (nonNullFields schema) name target := ⟨label, h⟩
  rw [edge_nonNullFields] at hedge
  obtain ⟨_, _, _, _, _, _, htarget⟩ := hedge
  exact mem_inputObjectTypes.mpr htarget

theorem mem_inputObjectTypes_of_ne_nil {name : Text} (h : nonNullFields schema name ≠ []) :
    name ∈ schema.inputObjectTypes := by
  rw [mem_inputObjectTypes, GraphQLSchema.isInputObjectType]
  cases hfields : schema.inputFieldsOf name with
  | some fields => rfl
  | none => exact absurd (by simp [nonNullFields, hfields, Dict.empty]) h

end Graph

/-! ## The validator runs the search -/

namespace InputObjectNonNullCircularRefsValidator

/-- The validator and the search are in the same state. -/
structure InStep (s : State) (t : CycleSearch.State Text Text) : Prop where
  visited : s.visitedTypes = t.visited
  path : s.fieldPath = t.path
  index : ∀ name, s.fieldPathIndexByTypeName.get name = t.index name
  errors : s.errors = t.reports.map fun report => circularReferenceMessage report.1 report.2

section Simulation

variable {schema : GraphQLSchema} {s : State} {t : CycleSearch.State Text Text}

theorem InStep.start : InStep {} .start where
  visited := rfl
  path := rfl
  index := fun _ => rfl
  errors := rfl

theorem InStep.enter (h : InStep s t) (name : Text) :
    InStep { s with
        visitedTypes := name :: s.visitedTypes
        fieldPathIndexByTypeName :=
          s.fieldPathIndexByTypeName.set name s.fieldPath.length }
      (t.enter name) where
  visited := congrArg (name :: ·) h.visited
  path := h.path
  index := by
    intro other
    by_cases heq : other = name
    · rw [heq, Dict.get_set_self, t.index_enter_self, h.path]
    · rw [Dict.get_set, if_neg heq, t.index_enter_of_ne heq, h.index]
  errors := h.errors

theorem InStep.leave (h : InStep s t) (name : Text) :
    InStep { s with fieldPathIndexByTypeName := s.fieldPathIndexByTypeName.pop name }
      (t.leave name) where
  visited := h.visited
  path := h.path
  index := by
    intro other
    by_cases heq : other = name
    · rw [heq, Dict.get_pop_self]
      exact (t.index_leave_self name).symm
    · rw [Dict.get_pop, if_neg heq, t.index_leave_of_ne heq, h.index]
  errors := h.errors

theorem InStep.push (h : InStep s t) (label : Text) :
    InStep { s with fieldPath := s.fieldPath ++ [label] } (t.push label) :=
  ⟨h.visited, congrArg (· ++ [label]) h.path, h.index, h.errors⟩

theorem InStep.pop (h : InStep s t) :
    InStep { s with fieldPath := s.fieldPath.dropLast } t.pop :=
  ⟨h.visited, congrArg List.dropLast h.path, h.index, h.errors⟩

theorem InStep.report (h : InStep s t) (fieldType : Text) (cycleIndex : ℕ) :
    InStep { s with
        errors := s.errors ++
          [circularReferenceMessage fieldType (s.fieldPath.drop cycleIndex)] }
      (t.report fieldType cycleIndex) where
  visited := h.visited
  path := h.path
  index := h.index
  errors := by
    rw [CycleSearch.State.report, List.map_append, ← h.errors, h.path]
    rfl

variable {visit : Text → State → Option State}
  {visit' : Text → CycleSearch.State Text Text → Option (CycleSearch.State Text Text)}

/-- The fields that are edges are followed, and the others are passed over. -/
theorem followFields_inStep
    (hvisit : ∀ name s t, InStep s t → Option.Rel InStep (visit name s) (visit' name t))
    (inputObj : Text) (fields : List (Text × GraphQLInputField)) (h : InStep s t) :
    Option.Rel InStep (fields.foldlM (followField schema visit inputObj) s)
      ((fields.filterMap fun entry =>
        (nonNullInputObject schema entry.2.type).map fun fieldType =>
          (fieldStr inputObj entry.1, fieldType)).foldlM
        (CycleSearch.follow visit') t) := by
  refine CycleSearch.rel_foldlM_filterMap ?_ ?_ h
  · intro entry hentry s
    rw [Option.map_eq_none_iff] at hentry
    rw [followField, hentry]
  · intro entry edge hentry s t h
    obtain ⟨fieldType, htype, rfl⟩ := Option.map_eq_some_iff.mp hentry
    have hpushed := h.push (fieldStr inputObj entry.1)
    rw [followField, htype, CycleSearch.follow]
    simp only [h.index]
    cases hidx : t.index fieldType with
    | none => exact CycleSearch.rel_map (hvisit _ _ _ hpushed) fun _ _ h => h.pop
    | some cycleIndex => exact .some (hpushed.report fieldType cycleIndex).pop

variable (schema)

theorem call_inStep (depth : ℕ) (name : Text) (s : State) (t : CycleSearch.State Text Text)
    (h : InStep s t) : Option.Rel InStep (call schema depth name s)
      (CycleSearch.search (nonNullFields schema) depth name t) := by
  induction depth generalizing name s t with
  | zero => exact .none
  | succ depth ih =>
      rw [call, CycleSearch.search, h.visited]
      by_cases hvisited : name ∈ t.visited
      · rw [if_pos hvisited, if_pos hvisited]
        exact .some h
      · rw [if_neg hvisited, if_neg hvisited]
        have hentered := h.enter name
        rw [h.visited] at hentered
        exact CycleSearch.rel_map (followFields_inStep ih name _ hentered) fun _ _ h => h.leave name

theorem calls_inStep (depth : ℕ) (names : List Text) (h : InStep s t) :
    Option.Rel InStep (names.foldlM (fun s name => call schema depth name s) s)
      (CycleSearch.searchAll (nonNullFields schema) depth names t) := by
  have hall : names.filterMap some = names := List.filterMap_some
  rw [CycleSearch.searchAll, ← hall]
  nth_rewrite 1 [hall]
  refine CycleSearch.rel_foldlM_filterMap ?_ ?_ h
  · intro name hnone
    cases hnone
  · intro name other hname s t h
    obtain rfl := Option.some.inj hname
    exact call_inStep schema depth name s t h

end Simulation

/-! ## Main result -/

/-- The validator reports an error exactly if the graph of Non-Null fields of input object
types has a cycle, and each error names the fields of one. -/
theorem reports_circularReferences (schema : GraphQLSchema) (depth : ℕ)
    (hdepth : schema.inputObjectTypes.length < depth) :
    ∃ errors, validate schema depth = some errors ∧
      (errors ≠ [] ↔ ∃ name, Relation.TransGen (HasNonNullField schema) name name) ∧
      ∀ error ∈ errors, ∃ name path,
        CycleSearch.IsCycle (nonNullFields schema) name path ∧
        error = circularReferenceMessage name path := by
  have hclosed : ∀ name ∈ schema.inputObjectTypes, ∀ edge ∈ nonNullFields schema name,
      edge.2 ∈ schema.inputObjectTypes := fun _ _ _ => mem_inputObjectTypes_of_edge
  obtain ⟨t, hrun, hcycle, hpaths⟩ := CycleSearch.searchAll_reports hclosed hdepth
    (fun _ hmem => hmem) fun _ => mem_inputObjectTypes_of_ne_nil
  have hrel := calls_inStep schema depth schema.inputObjectTypes InStep.start
  rw [hrun] at hrel
  obtain ⟨s, hvalidate, hstep⟩ : ∃ s, schema.inputObjectTypes.foldlM
      (fun s name => call schema depth name s) {} = some s ∧ InStep s t := by
    cases hs : schema.inputObjectTypes.foldlM
        (fun s name => call schema depth name s) {} with
    | some s =>
        rw [hs] at hrel
        cases hrel with
        | some h => exact ⟨s, rfl, h⟩
    | none =>
        rw [hs] at hrel
        cases hrel
  refine ⟨s.errors, by rw [validate, hvalidate]; rfl, ?_, ?_⟩
  · rw [hstep.errors, ne_eq, List.map_eq_nil_iff, ← edge_nonNullFields]
    exact hcycle
  · intro error herror
    rw [hstep.errors] at herror
    obtain ⟨report, hreport, rfl⟩ := List.mem_map.mp herror
    exact ⟨report.1, report.2, hpaths report hreport, rfl⟩

/-- `input Node { next: Node!, others: [Node!] }` -/
def nodeInputSchema : GraphQLSchema where
  typeMap := Dict.empty.set (str "Node") (.inputObject
    ((Dict.empty.set (str "next") { type := .nonNull (.named (str "Node")) }).set
      (str "others") { type := .list (.nonNull (.named (str "Node"))) }))

theorem reports_circularReferences_node :
    ∃ errors, validate nodeInputSchema 2 = some errors ∧
      (errors ≠ [] ↔
        ∃ name, Relation.TransGen (HasNonNullField nodeInputSchema) name name) ∧
      ∀ error ∈ errors, ∃ name path,
        CycleSearch.IsCycle (nonNullFields nodeInputSchema) name path ∧
        error = circularReferenceMessage name path :=
  reports_circularReferences nodeInputSchema 2 (by decide +kernel)

example : validate nodeInputSchema 2 =
    some [str "Invalid circular reference. The Input Object Node references itself in " ++
      str "the non-null field Node.next."] := by
  decide +kernel

end InputObjectNonNullCircularRefsValidator

end GraphqlCore
