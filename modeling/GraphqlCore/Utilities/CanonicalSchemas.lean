import GraphqlCore.Type.Validate
import GraphqlCore.Utilities.SortedSchemas

/-!
# Canonical schemas

Schemas that differ only in the order of their parts are sorted to schemas that are printed
alike, and a sorted schema is not changed by sorting it again.
-/

namespace GraphqlCore

open SchemaPrinter

/-! ## Schemas that differ in the order of their parts -/

/-- Maps of the same values. -/
def SameEntries {β : Type} (map map' : Dict Text β) : Prop := ∀ name, map.get name = map'.get name

/-- Fields that differ in the order of their arguments. -/
structure SameField (field field' : GraphQLField) : Prop where
  args : SameEntries field.args field'.args
  rest : { field with args := field'.args } = field'

/-- Maps of fields that differ in their order and in that of their arguments. -/
def SameFieldMaps (fields fields' : Dict Text GraphQLField) : Prop :=
  ∀ name, Option.Rel SameField (fields.get name) (fields'.get name)

/-- Types that differ in the order of their parts. -/
inductive SameType : GraphQLNamedType → GraphQLNamedType → Prop
  | scalar {description specifiedByUrl : Option Text} :
      SameType (.scalar description specifiedByUrl) (.scalar description specifiedByUrl)
  | object {fields fields' : Dict Text GraphQLField} {interfaces interfaces' : List Text}
      {description : Option Text} (hfields : SameFieldMaps fields fields')
      (hinterfaces : interfaces.Perm interfaces') :
      SameType (.object fields interfaces description) (.object fields' interfaces' description)
  | interface {fields fields' : Dict Text GraphQLField} {interfaces interfaces' : List Text}
      {description : Option Text} (hfields : SameFieldMaps fields fields')
      (hinterfaces : interfaces.Perm interfaces') :
      SameType (.interface fields interfaces description)
        (.interface fields' interfaces' description)
  | union {types types' : List Text} {description : Option Text} (htypes : types.Perm types') :
      SameType (.union types description) (.union types' description)
  | enum {values values' : Dict Text GraphQLEnumValue} {description : Option Text}
      (hvalues : SameEntries values values') :
      SameType (.enum values description) (.enum values' description)
  | inputObject {fields fields' : Dict Text GraphQLInputField} {isOneOf : Bool}
      {description : Option Text} (hfields : SameEntries fields fields') :
      SameType (.inputObject fields isOneOf description) (.inputObject fields' isOneOf description)

/-- Directives that differ in the order of their arguments and locations. -/
structure SameDirective (directive directive' : GraphQLDirective) : Prop where
  args : SameEntries directive.args directive'.args
  locations : directive.locations.Perm directive'.locations
  rest : { directive with args := directive'.args, locations := directive'.locations } = directive'

/-- Schemas that differ only in the order of their parts. -/
structure SameUpToOrder (schema schema' : GraphQLSchema) : Prop where
  types : ∀ name, Option.Rel SameType (schema.getType name) (schema'.getType name)
  directives : ∃ directives, schema.directives.Perm directives ∧
    List.Forall₂ SameDirective directives schema'.directives
  rest : { schema with typeMap := schema'.typeMap, directives := schema'.directives } = schema'

/-- Directives of the same name differ at most in the order of their parts. -/
def SameNameSameDirective (schema : GraphQLSchema) : Prop :=
  ∀ directive ∈ schema.directives, ∀ directive' ∈ schema.directives,
    isSpecifiedDirective directive = false → directive.name = directive'.name →
      SameDirective directive directive'

/-- Directives of different names. -/
theorem sameNameSameDirective_of_nodup {schema : GraphQLSchema}
    (h : (schema.directives.map GraphQLDirective.name).Nodup) :
    SameNameSameDirective schema := by
  intro directive hdirective directive' hdirective' _ heq
  rw [List.inj_on_of_nodup_map h hdirective hdirective' heq]
  exact ⟨fun _ => rfl, .refl _, rfl⟩

/-! ## Mapping equal parts -/

section Mapping

theorem map_eq_of_rel {α β γ : Type} {r : α → β → Prop} {f : α → γ} {g : β → γ} {a : Option α}
    {b : Option β} (h : Option.Rel r a b) (hmap : ∀ x y, r x y → f x = g y) :
    a.map f = b.map g := by
  cases h with
  | none => rfl
  | some hrel => rw [Option.map_some, Option.map_some, hmap _ _ hrel]

theorem mapField_eq {field field' : GraphQLField} (h : SameField field field') :
    mapField field = mapField field' := by
  rw [← h.rest, mapField, mapField, sortObjMap_eq h.args]

theorem map_mapField_eq {fields fields' : Dict Text GraphQLField}
    (h : SameFieldMaps fields fields') :
    sortObjMap (fields.map mapField) = sortObjMap (fields'.map mapField) := by
  refine sortObjMap_eq fun name => ?_
  rw [Dict.get_map, Dict.get_map]
  exact map_eq_of_rel (h name) fun _ _ => mapField_eq

theorem mapNamedType_eq {type type' : GraphQLNamedType} (h : SameType type type') {name : Text}
    (hname : isStdType name = false) : mapNamedType name type = mapNamedType name type' := by
  unfold mapNamedType
  rw [if_neg (Bool.eq_false_iff.mp hname), if_neg (Bool.eq_false_iff.mp hname)]
  cases h with
  | scalar => rfl
  | object hfields hinterfaces | interface hfields hinterfaces =>
      simp only [map_mapField_eq hfields, sortByName_eq hinterfaces]
  | union htypes => simp only [sortByName_eq htypes]
  | «enum» hvalues => simp only [sortObjMap_eq hvalues]
  | inputObject hfields => simp only [sortObjMap_eq hfields]

theorem mapDirective_eq {directive directive' : GraphQLDirective}
    (h : SameDirective directive directive') (hname : isSpecifiedDirective directive = false) :
    mapDirective directive = mapDirective directive' := by
  have hname' : isSpecifiedDirective directive' = false := by
    rw [← h.rest]
    exact hname
  rw [mapDirective, mapDirective, if_neg (Bool.eq_false_iff.mp hname),
    if_neg (Bool.eq_false_iff.mp hname'), ← h.rest, sortObjMap_eq h.args,
    sortByName_eq h.locations]

/-- The types of schemas that differ in the order of their parts are mapped to the same types. -/
theorem map_mapNamedType_eq {schema schema' : GraphQLSchema} (h : HasAllTypes schema)
    (h' : HasAllTypes schema') (hsame : SameUpToOrder schema schema') (name : Text) :
    (schema.getType name).map (mapNamedType name) =
      (schema'.getType name).map (mapNamedType name) := by
  refine map_eq_of_rel (r := fun type type' => SameType type type' ∧
    schema.getType name = some type ∧ schema'.getType name = some type') ?_ ?_
  · have hrel := hsame.types name
    generalize schema.getType name = type, schema'.getType name = type' at hrel
    cases hrel with
    | none => exact .none
    | some hrel => exact .some ⟨hrel, rfl, rfl⟩
  · rintro type type' ⟨hrel, htype, htype'⟩
    cases hstd : isStdType name with
    | true =>
        have heq := (h.std name type htype hstd).symm.trans (h'.std name type' htype' hstd)
        rw [Option.some.inj heq]
    | false => exact mapNamedType_eq hrel hstd

end Mapping

/-! ## Mapping mapped parts -/

section Idempotence

theorem sortObjMap_sortObjMap {β : Type} (map : Dict Text β) :
    sortObjMap (sortObjMap map) = sortObjMap map :=
  sortObjMap_eq (get_sortObjMap map)

theorem sortByName_sortByName (names : List Text) :
    sortByName (sortByName names) = sortByName names :=
  sortByName_eq (sortByName_perm names)

theorem mapField_mapField (field : GraphQLField) : mapField (mapField field) = mapField field := by
  simp only [mapField, sortObjMap_sortObjMap]

theorem sortObjMap_map_mapField (fields : Dict Text GraphQLField) :
    sortObjMap ((sortObjMap (fields.map mapField)).map mapField) =
      sortObjMap (fields.map mapField) := by
  refine sortObjMap_eq fun name => ?_
  rw [Dict.get_map, get_sortObjMap, Dict.get_map, Option.map_map]
  exact congrArg (fun f => (fields.get name).map f) (funext mapField_mapField)

theorem mapNamedType_mapNamedType (name : Text) (type : GraphQLNamedType) :
    mapNamedType name (mapNamedType name type) = mapNamedType name type := by
  cases hstd : isStdType name with
  | true => rw [mapNamedType_of_std hstd]
  | false =>
      unfold mapNamedType
      simp only [hstd, Bool.false_eq_true, if_false]
      cases type with
      | scalar => rfl
      | object | interface => simp only [sortObjMap_map_mapField, sortByName_sortByName]
      | union => simp only [sortByName_sortByName]
      | «enum» | inputObject => simp only [sortObjMap_sortObjMap]

theorem mapDirective_mapDirective (directive : GraphQLDirective) :
    mapDirective (mapDirective directive) = mapDirective directive := by
  unfold mapDirective
  by_cases hspecified : isSpecifiedDirective directive = true
  · rw [if_pos hspecified, if_pos hspecified]
  · have hmapped : ¬isSpecifiedDirective { directive with
        locations := sortByName directive.locations, args := sortObjMap directive.args } = true :=
      hspecified
    rw [if_neg hspecified, if_neg hmapped]
    simp only [sortObjMap_sortObjMap, sortByName_sortByName]

@[simp]
theorem name_mapDirective (directive : GraphQLDirective) :
    (mapDirective directive).name = directive.name := by
  unfold mapDirective
  split <;> rfl

@[simp]
theorem isSpecifiedDirective_mapDirective (directive : GraphQLDirective) :
    isSpecifiedDirective (mapDirective directive) = isSpecifiedDirective directive := by
  rw [isSpecifiedDirective, isSpecifiedDirective, name_mapDirective]

theorem mem_args_mapDirective {directive : GraphQLDirective} {arg : Text × GraphQLArgument} :
    arg ∈ (mapDirective directive).args.items ↔ arg ∈ directive.args.items := by
  unfold mapDirective
  split
  · rfl
  · exact (sortObjMap_perm directive.args).mem_iff

theorem mem_sortedDirectives {schema : GraphQLSchema} {directive : GraphQLDirective} :
    directive ∈ sortedDirectives schema ↔
      ∃ source ∈ schema.directives, mapDirective source = directive := by
  rw [sortedDirectives, mem_sortBy, List.mem_map]

@[simp]
theorem getType_sortedSchema (schema : GraphQLSchema) (name : Text) :
    (sortedSchema schema).getType name = (schema.getType name).map (mapNamedType name) := by
  rw [GraphQLSchema.getType, sortedSchema, get_sortObjMap, get_mapEntries]
  rfl

theorem mem_keys_sortedSchema {schema : GraphQLSchema} {name : Text} :
    name ∈ (sortedSchema schema).typeMap.keys ↔ name ∈ schema.typeMap.keys := by
  rw [Dict.mem_keys_iff, Dict.mem_keys_iff]
  change ((sortedSchema schema).getType name).isSome ↔ (schema.getType name).isSome
  rw [getType_sortedSchema, Option.isSome_map]

/-- A sorted schema is not changed by sorting it again. -/
theorem sortedSchema_sortedSchema (schema : GraphQLSchema) :
    sortedSchema (sortedSchema schema) = sortedSchema schema := by
  have htypeMap : sortObjMap (mapEntries mapNamedType (sortedSchema schema).typeMap) =
      (sortedSchema schema).typeMap := by
    refine sortObjMap_eq fun name => ?_
    rw [get_mapEntries, get_mapEntries]
    change ((sortedSchema schema).getType name).map _ = (schema.getType name).map _
    rw [getType_sortedSchema, Option.map_map]
    exact congrArg (fun f => (schema.getType name).map f)
      (funext (mapNamedType_mapNamedType name))
  have hdirectives : sortedDirectives (sortedSchema schema) = sortedDirectives schema := by
    have hmap : (sortedDirectives schema).map mapDirective = sortedDirectives schema := by
      rw [sortedDirectives, map_sortBy name_mapDirective, List.map_map]
      exact congrArg (sortBy nameLe GraphQLDirective.name)
        (List.map_congr_left fun directive _ => mapDirective_mapDirective directive)
    rw [sortedDirectives]
    change sortBy nameLe GraphQLDirective.name ((sortedDirectives schema).map mapDirective) = _
    rw [hmap]
    exact sortBy_sortBy nameLe_isLinear _ _
  rw [sortedSchema, htypeMap, hdirectives]
  rfl

theorem HasAllTypes.sortedSchema {schema : GraphQLSchema} (h : HasAllTypes schema) :
    HasAllTypes (sortedSchema schema) where
  named name hname := h.named name (mem_keys_sortedSchema.mp hname)
  std name type htype hstd := by
    have hget : (schema.getType name).map (mapNamedType name) = some type :=
      (getType_sortedSchema schema name).symm.trans htype
    obtain ⟨source, hsource, rfl⟩ := Option.map_eq_some_iff.mp hget
    rw [mapNamedType_of_std hstd]
    exact h.std name source hsource hstd
  introspection := mem_keys_sortedSchema.mpr h.introspection
  closed name type htype target htarget := by
    have hget : (schema.getType name).map (mapNamedType name) = some type :=
      (getType_sortedSchema schema name).symm.trans htype
    obtain ⟨source, hsource, rfl⟩ := Option.map_eq_some_iff.mp hget
    exact mem_keys_sortedSchema.mpr
      (h.closed name source hsource target (references_mapNamedType.mp htarget))
  roots root hroot := mem_keys_sortedSchema.mpr (h.roots root hroot)
  directives directive hdirective arg harg := by
    obtain ⟨source, hsource, rfl⟩ := mem_sortedDirectives.mp hdirective
    exact mem_keys_sortedSchema.mpr
      (h.directives source hsource arg (mem_args_mapDirective.mp harg))

theorem SpecifiedUseStdTypes.sortedSchema {schema : GraphQLSchema}
    (h : SpecifiedUseStdTypes schema) : SpecifiedUseStdTypes (sortedSchema schema) := by
  intro directive hdirective hspecified arg harg
  obtain ⟨source, hsource, rfl⟩ := mem_sortedDirectives.mp hdirective
  rw [isSpecifiedDirective_mapDirective] at hspecified
  exact h source hsource hspecified arg (mem_args_mapDirective.mp harg)

end Idempotence

/-! ## Schemas with one field -/

section FieldSchemas

theorem SameType.refl (type : GraphQLNamedType) : SameType type type := by
  have hfields (fields : Dict Text GraphQLField) : SameFieldMaps fields fields := by
    intro name
    cases fields.get name with
    | none => exact .none
    | some field => exact .some ⟨fun _ => rfl, rfl⟩
  cases type with
  | scalar => exact .scalar
  | object fields => exact .object (hfields fields) (.refl _)
  | interface fields => exact .interface (hfields fields) (.refl _)
  | union => exact .union (.refl _)
  | «enum» => exact .enum fun _ => rfl
  | inputObject => exact .inputObject fun _ => rfl

/-- Only the order of the directives is different. -/
theorem sameUpToOrder_directives {schema : GraphQLSchema} {directives : List GraphQLDirective}
    (h : schema.directives.Perm directives) :
    SameUpToOrder schema { schema with directives := directives } where
  types name := by
    change Option.Rel SameType (schema.getType name) (schema.getType name)
    cases schema.getType name with
    | none => exact .none
    | some type => exact .some (.refl type)
  directives := ⟨directives, h, List.forall₂_same.mpr fun _ _ => ⟨fun _ => rfl, .refl _, rfl⟩⟩
  rest := rfl

theorem hasAllTypes_std : HasAllTypes { typeMap := stdTypeMap } where
  named := by decide +kernel
  std _ _ htype _ := htype
  introspection := by decide +kernel
  closed name type htype target htarget := by
    have hstd : ∀ entry ∈ stdTypeMap.items, ∀ target ∈ entry.2.references,
        target ∈ stdTypeMap.keys := by
      decide +kernel
    exact hstd (name, type) (Dict.mem_items_iff.mpr htype) target htarget
  roots := by decide +kernel
  directives := by decide +kernel

/-- A schema has all its types when a type is added that refers to types of it. -/
theorem HasAllTypes.addType {schema : GraphQLSchema} (h : HasAllTypes schema) {name : Text}
    {type : GraphQLNamedType} (hname : name ≠ []) (hstd : isStdType name = false)
    (hclosed : ∀ target ∈ type.references, target = name ∨ target ∈ schema.typeMap.keys) :
    HasAllTypes { schema with typeMap := schema.typeMap.set name type } := by
  have hkeys {target : Text} : target ∈ (schema.typeMap.set name type).keys ↔
      target = name ∨ target ∈ schema.typeMap.keys := by
    rw [Dict.mem_keys_iff, Dict.mem_keys_iff, Dict.get_set]
    by_cases htarget : target = name
    · simp [htarget]
    · simp [htarget]
  refine ⟨?_, ?_, hkeys.mpr (.inr h.introspection), ?_, ?_, ?_⟩
  · intro target htarget
    rcases hkeys.mp htarget with rfl | hmem
    · exact hname
    · exact h.named target hmem
  · intro target targetType htarget htargetStd
    have hne : target ≠ name := by
      rintro rfl
      rw [hstd] at htargetStd
      cases htargetStd
    rw [Dict.get_set, if_neg hne] at htarget
    exact h.std target targetType htarget htargetStd
  · intro source sourceType hsource target htarget
    change (schema.typeMap.set name type).get source = some sourceType at hsource
    rw [Dict.get_set] at hsource
    split at hsource
    · cases hsource
      exact hkeys.mpr (hclosed target htarget)
    · exact hkeys.mpr (.inr (h.closed source sourceType hsource target htarget))
  · exact fun root hroot => hkeys.mpr (.inr (h.roots root hroot))
  · exact fun directive hdirective arg harg =>
      hkeys.mpr (.inr (h.directives directive hdirective arg harg))

/-- A schema of one field, and of directives without arguments with their names and locations. -/
def fieldSchema (directives : List (Text × Text)) : GraphQLSchema where
  typeMap := stdTypeMap.set (str "Query")
    (.object (Dict.empty.set (str "a") { type := .named (str "Int") }) [])
  queryType := some (str "Query")
  directives := directives.map fun (name, location) => { name := name, locations := [location] }

theorem args_fieldSchema {directives : List (Text × Text)} {directive : GraphQLDirective}
    (h : directive ∈ (fieldSchema directives).directives) : directive.args = Dict.empty := by
  obtain ⟨_, _, rfl⟩ := List.mem_map.mp h
  rfl

theorem hasAllTypes_fieldSchema (directives : List (Text × Text)) :
    HasAllTypes (fieldSchema directives) :=
  { hasAllTypes_std.addType (by decide +kernel) (by decide +kernel) (by decide +kernel) with
    roots := by
      change ∀ root ∈ [str "Query"], root ∈ (fieldSchema []).typeMap.keys
      decide +kernel
    directives := by
      intro directive hdirective arg harg
      rw [args_fieldSchema hdirective] at harg
      cases harg }

theorem specifiedUseStdTypes_fieldSchema (directives : List (Text × Text)) :
    SpecifiedUseStdTypes (fieldSchema directives) := by
  intro directive hdirective _ arg harg
  rw [args_fieldSchema hdirective] at harg
  cases harg

theorem sameUpToOrder_fieldSchema {directives directives' : List (Text × Text)}
    (h : directives.Perm directives') :
    SameUpToOrder (fieldSchema directives) (fieldSchema directives') :=
  sameUpToOrder_directives (h.map _)

/-- A schema whose directive of a specified name has an argument of a type of its own. -/
def ownSkipSchema : GraphQLSchema :=
  { fieldSchema [] with
    typeMap := (fieldSchema []).typeMap.set (str "E") (.enum (Dict.empty.set (str "A") {}))
    directives := [{
      name := str "skip"
      args := Dict.empty.set (str "if") { type := .named (str "E") }
      locations := [str "FIELD"] }] }

theorem hasAllTypes_ownSkipSchema : HasAllTypes ownSkipSchema :=
  { (hasAllTypes_fieldSchema []).addType (by decide +kernel) (by decide +kernel)
      (by decide +kernel) with
    directives := by decide +kernel }

def plainFunctions : ValueFunctions where
  scalarValueToLiteral := fun _ _ => none
  coerceOutputValue := fun _ value => .ok value
  floatText := fun _ => none
  isHashable := fun _ => true
  equal := fun _ _ => false

end FieldSchemas

/-! ## Printing sorted schemas -/

section Canonicity

variable {schema schema' : GraphQLSchema}

theorem SameDirective.isSpecifiedDirective_eq {directive directive' : GraphQLDirective}
    (h : SameDirective directive directive') :
    isSpecifiedDirective directive' = isSpecifiedDirective directive := by
  rw [← h.rest]
  rfl

theorem filter_map_mapDirective_eq {directives directives' : List GraphQLDirective}
    (h : List.Forall₂ SameDirective directives directives') :
    (directives.map mapDirective).filter (fun directive => !isSpecifiedDirective directive) =
      (directives'.map mapDirective).filter fun directive => !isSpecifiedDirective directive := by
  induction h with
  | nil => rfl
  | @cons directive directive' _ _ hdirective _ ih =>
      rw [List.map_cons, List.map_cons]
      cases hspecified : isSpecifiedDirective directive with
      | true =>
          rw [List.filter_cons_of_neg (by simp [hspecified]),
            List.filter_cons_of_neg (by simp [hdirective.isSpecifiedDirective_eq, hspecified]), ih]
      | false =>
          rw [List.filter_cons_of_pos (by simp [hspecified]),
            List.filter_cons_of_pos (by simp [hdirective.isSpecifiedDirective_eq, hspecified]), ih,
            mapDirective_eq hdirective hspecified]

/-- The directives that are not specified are sorted in the same way. -/
theorem filter_sortedDirectives_eq (hsame : SameUpToOrder schema schema')
    (hname : SameNameSameDirective schema) :
    (sortedDirectives schema).filter (fun directive => !isSpecifiedDirective directive) =
      (sortedDirectives schema').filter fun directive => !isSpecifiedDirective directive := by
  obtain ⟨directives, hperm, hrel⟩ := hsame.directives
  refine filter_sortBy_eq_of_perm nameLe_isLinear _ ?_ ?_
  · rw [← filter_map_mapDirective_eq hrel]
    exact (hperm.map mapDirective).filter _
  · intro directive hdirective directive' hdirective' heq
    obtain ⟨hmem, hspecified⟩ := List.mem_filter.mp hdirective
    obtain ⟨source, hsource, rfl⟩ := List.mem_map.mp hmem
    obtain ⟨source', hsource', rfl⟩ := List.mem_map.mp (List.mem_filter.mp hdirective').1
    rw [isSpecifiedDirective_mapDirective, Bool.not_eq_true'] at hspecified
    rw [name_mapDirective, name_mapDirective] at heq
    exact mapDirective_eq (hname source hsource source' hsource' hspecified heq) hspecified

/-- Only the directives that are not specified are printed. -/
theorem printSchema_directives {directives : List GraphQLDirective}
    (h : schema.directives.filter (fun directive => !isSpecifiedDirective directive) =
      directives.filter fun directive => !isSpecifiedDirective directive)
    (functions : ValueFunctions) :
    printSchema schema functions =
      printSchema { schema with directives := directives } functions := by
  rw [printSchema, printSchema, printFilteredSchema, printFilteredSchema, h]
  rfl

theorem printSchema_sortedSchema_eq (h : HasAllTypes schema) (h' : HasAllTypes schema')
    (hsame : SameUpToOrder schema schema') (hname : SameNameSameDirective schema)
    (functions : ValueFunctions) :
    printSchema (sortedSchema schema) functions =
      printSchema (sortedSchema schema') functions := by
  have htypeMap : (sortedSchema schema).typeMap = (sortedSchema schema').typeMap := by
    refine sortObjMap_eq fun name => ?_
    rw [get_mapEntries, get_mapEntries]
    exact map_mapNamedType_eq h h' hsame name
  have hsorted : sortedSchema schema' =
      { sortedSchema schema with directives := sortedDirectives schema' } := by
    have hrest : sortedSchema schema' = { schema with
        typeMap := (sortedSchema schema').typeMap, directives := sortedDirectives schema' } := by
      rw [← hsame.rest]
      rfl
    rw [hrest, ← htypeMap]
    rfl
  rw [hsorted]
  exact printSchema_directives (filter_sortedDirectives_eq hsame hname) functions

theorem exists_sameDirective {directives directives' : List GraphQLDirective}
    (h : List.Forall₂ SameDirective directives directives') {directive' : GraphQLDirective}
    (hdirective' : directive' ∈ directives') :
    ∃ directive ∈ directives, SameDirective directive directive' := by
  induction h with
  | nil => cases hdirective'
  | @cons directive _ _ _ hsame _ ih =>
      rcases List.mem_cons.mp hdirective' with rfl | hrest
      · exact ⟨directive, List.mem_cons_self, hsame⟩
      · obtain ⟨directive, hdirective, hsame⟩ := ih hrest
        exact ⟨directive, List.mem_cons_of_mem _ hdirective, hsame⟩

theorem SameUpToOrder.specifiedUseStdTypes (hsame : SameUpToOrder schema schema')
    (hstd : SpecifiedUseStdTypes schema) : SpecifiedUseStdTypes schema' := by
  obtain ⟨directives, hperm, hrel⟩ := hsame.directives
  intro directive' hdirective' hspecified arg harg
  obtain ⟨directive, hdirective, hsameDirective⟩ := exists_sameDirective hrel hdirective'
  have hget : directive.args.get arg.1 = some arg.2 :=
    (hsameDirective.args arg.1).trans (Dict.mem_items_iff.mp harg)
  rw [hsameDirective.isSpecifiedDirective_eq] at hspecified
  exact hstd directive (hperm.mem_iff.mpr hdirective) hspecified arg (Dict.mem_items_iff.mpr hget)

/-- A schema is sorted to one that sorting does not change any more, and that is printed like
any schema that differs only in the order of its parts when that is sorted. -/
theorem printSchema_lexicographicSortSchema (h : HasAllTypes schema)
    (hstd : SpecifiedUseStdTypes schema) (functions : ValueFunctions) (depth : ℕ) :
    ∃ sorted, lexicographicSortSchema schema (depth + 2) = .ok sorted ∧
      (∃ again, lexicographicSortSchema sorted (depth + 2) = .ok again ∧
        printSchema again functions = printSchema sorted functions) ∧
      ∀ other, HasAllTypes other → SameUpToOrder schema other → SameNameSameDirective schema →
        ∃ sortedOther, lexicographicSortSchema other (depth + 2) = .ok sortedOther ∧
          printSchema sortedOther functions = printSchema sorted functions := by
  refine ⟨sortedSchema schema, lexicographicSortSchema_eq h hstd depth, ?_, ?_⟩
  · refine ⟨_, lexicographicSortSchema_eq h.sortedSchema hstd.sortedSchema depth, ?_⟩
    rw [sortedSchema_sortedSchema]
  · intro other hother hsame hname
    refine ⟨_, lexicographicSortSchema_eq hother (hsame.specifiedUseStdTypes hstd) depth, ?_⟩
    exact (printSchema_sortedSchema_eq h hother hsame hname functions).symm

theorem printSchema_lexicographicSortSchema_swapped :
    ∃ sorted,
      lexicographicSortSchema
          (fieldSchema [(str "b", str "FIELD"), (str "a", str "QUERY")]) 2 = .ok sorted ∧
      (∃ again, lexicographicSortSchema sorted 2 = .ok again ∧
        printSchema again plainFunctions = printSchema sorted plainFunctions) ∧
      ∃ sortedOther,
        lexicographicSortSchema
            (fieldSchema [(str "a", str "QUERY"), (str "b", str "FIELD")]) 2 = .ok sortedOther ∧
        printSchema sortedOther plainFunctions = printSchema sorted plainFunctions := by
  obtain ⟨sorted, hsorted, hagain, hother⟩ := printSchema_lexicographicSortSchema
    (hasAllTypes_fieldSchema [(str "b", str "FIELD"), (str "a", str "QUERY")])
    (specifiedUseStdTypes_fieldSchema _) plainFunctions 0
  exact ⟨sorted, hsorted, hagain, hother _ (hasAllTypes_fieldSchema _)
    (sameUpToOrder_fieldSchema (.swap _ _ _)) (sameNameSameDirective_of_nodup (by decide))⟩

/-- Directives of one name keep their order, and there is no sorted schema when a directive of a
specified name has an argument of a type of the schema. -/
theorem lexicographicSortSchema_sameName :
    (let schema := fieldSchema [(str "d", str "FIELD"), (str "d", str "QUERY")]
      let schema' := fieldSchema [(str "d", str "QUERY"), (str "d", str "FIELD")]
      (HasAllTypes schema ∧ validateSchema schema = [] ∧ validateDirectives schema = []) ∧
        (HasAllTypes schema' ∧ validateSchema schema' = [] ∧ validateDirectives schema' = []) ∧
        SameUpToOrder schema schema' ∧
        ∃ sorted sorted', lexicographicSortSchema schema 2 = .ok sorted ∧
          lexicographicSortSchema schema' 2 = .ok sorted' ∧
          printSchema sorted plainFunctions ≠ printSchema sorted' plainFunctions) ∧
    (HasAllTypes ownSkipSchema ∧ validateSchema ownSkipSchema = [] ∧
      validateDirectives ownSkipSchema = []) ∧
    lexicographicSortSchema ownSkipSchema 8 = .error (.notUnique (str "E")) := by
  refine ⟨⟨⟨hasAllTypes_fieldSchema _, by decide +kernel, by decide +kernel⟩,
    ⟨hasAllTypes_fieldSchema _, by decide +kernel, by decide +kernel⟩,
    sameUpToOrder_fieldSchema (.swap _ _ _), _, _,
    lexicographicSortSchema_eq (hasAllTypes_fieldSchema _)
      (specifiedUseStdTypes_fieldSchema _) 0,
    lexicographicSortSchema_eq (hasAllTypes_fieldSchema _)
      (specifiedUseStdTypes_fieldSchema _) 0,
    by decide +kernel⟩, ⟨hasAllTypes_ownSkipSchema, by decide +kernel, by decide +kernel⟩, ?_⟩
  have herror : (match lexicographicSortSchema ownSkipSchema 8 with
      | .ok _ => false
      | .error error => decide (error = .notUnique (str "E"))) = true := by
    decide +kernel
  split at herror
  · cases herror
  · rename_i error heq
    rw [heq, of_decide_eq_true herror]

end Canonicity

end GraphqlCore
