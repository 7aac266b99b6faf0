import GraphqlCore.Utilities.LexicographicSortSchema
import GraphqlCore.Utilities.PrintSchema

/-!
# Sorted schemas

A schema that has all the types it refers to can be sorted, and its types then come in the
natural order of their names.  Schemas that differ only in the order of their parts are
sorted to schemas that are printed alike.
-/

namespace GraphqlCore

open TypeObjects SchemaPrinter

/-! ## Sorted maps -/

section Maps

variable {β : Type} {map map' : Dict Text β}

theorem sortObjMap_perm (map : Dict Text β) : (sortObjMap map).items.Perm map.items :=
  sortBy_perm nameLe Prod.fst map.items

@[simp]
theorem get_sortObjMap (map : Dict Text β) (name : Text) :
    (sortObjMap map).get name = map.get name := by
  ext value
  rw [← Dict.mem_items_iff, ← Dict.mem_items_iff, (sortObjMap_perm map).mem_iff]

/-- Maps of the same values have the same items. -/
theorem items_perm (h : ∀ name, map.get name = map'.get name) : map.items.Perm map'.items := by
  refine (List.perm_ext_iff_of_nodup map.nodup_keys.of_map map'.nodup_keys.of_map).mpr ?_
  rintro ⟨name, value⟩
  rw [Dict.mem_items_iff, Dict.mem_items_iff, h]

theorem eq_of_fst_eq {entry entry' : Text × β} (hentry : entry ∈ map.items)
    (hentry' : entry' ∈ map.items) (hname : entry.1 = entry'.1) : entry = entry' := by
  have hget := Dict.mem_items_iff.mp (Prod.mk.eta (p := entry) ▸ hentry)
  have hget' := Dict.mem_items_iff.mp (Prod.mk.eta (p := entry') ▸ hentry')
  rw [hname] at hget
  exact Prod.ext hname (Option.some.inj (hget.symm.trans hget'))

/-- Maps of the same values are sorted to the same map. -/
theorem sortObjMap_eq (h : ∀ name, map.get name = map'.get name) :
    sortObjMap map = sortObjMap map' :=
  Dict.ext_items (sortBy_eq_of_perm nameLe_isLinear (items_perm h)
    fun _ hentry _ hentry' => eq_of_fst_eq hentry hentry')

theorem sortByName_eq {names names' : List Text} (h : names.Perm names') :
    sortByName names = sortByName names' :=
  sortBy_eq_of_perm nameLe_isLinear h fun _ _ _ _ heq => heq

theorem sortByName_perm (names : List Text) : (sortByName names).Perm names :=
  sortBy_perm nameLe id names

/-- Apply a function to all values and their names. -/
def mapEntries {γ : Type} (f : Text → β → γ) (map : Dict Text β) : Dict Text γ :=
  ⟨map.items.map fun entry => (entry.1, f entry.1 entry.2), by
    rw [List.map_map]
    exact map.nodup_keys⟩

@[simp]
theorem get_mapEntries {γ : Type} (f : Text → β → γ) (map : Dict Text β) (name : Text) :
    (mapEntries f map).get name = (map.get name).map (f name) := by
  have hfind : ∀ items : List (Text × β),
      Dict.find name (items.map fun entry => (entry.1, f entry.1 entry.2)) =
        (Dict.find name items).map (f name) := by
    intro items
    induction items with
    | nil => rfl
    | cons entry rest ih =>
        obtain ⟨key, value⟩ := entry
        rw [List.map_cons, Dict.find, Dict.find, ih]
        by_cases hname : key = name
        · rw [if_pos hname, if_pos hname, hname]
          rfl
        · rw [if_neg hname, if_neg hname]
  exact hfind map.items

end Maps

/-! ## Schemas with all their types -/

namespace GraphQLNamedType

/-- The names of the types that a type refers to. -/
def references : GraphQLNamedType → List Text
  | .object fields interfaces _ | .interface fields interfaces _ =>
      interfaces ++ fields.items.flatMap fun field =>
        field.2.type.getNamedType ::
          field.2.args.items.map fun arg => arg.2.type.getNamedType
  | .union types _ => types
  | .inputObject fields _ _ => fields.items.map fun field => field.2.type.getNamedType
  | .scalar .. => []
  | .enum .. => []

end GraphQLNamedType

/-- What the constructor of a schema establishes: it has all types that it refers to. -/
structure HasAllTypes (schema : GraphQLSchema) : Prop where
  named : ∀ name ∈ schema.typeMap.keys, name ≠ []
  std : ∀ name type, schema.typeMap.get name = some type → isStdType name = true →
    stdTypeMap.get name = some type
  introspection : str "__Schema" ∈ schema.typeMap.keys
  closed : ∀ name type, schema.typeMap.get name = some type → ∀ target ∈ type.references,
    target ∈ schema.typeMap.keys
  roots : ∀ root ∈ schema.queryType.toList ++ (schema.mutationType.toList ++
    schema.subscriptionType.toList), root ∈ schema.typeMap.keys
  directives : ∀ directive ∈ schema.directives, ∀ arg ∈ directive.args.items,
    arg.2.type.getNamedType ∈ schema.typeMap.keys

/-- The directives with specified names have arguments of types that every schema shares. -/
def SpecifiedUseStdTypes (schema : GraphQLSchema) : Prop :=
  ∀ directive ∈ schema.directives, isSpecifiedDirective directive = true →
    ∀ arg ∈ directive.args.items, isStdType arg.2.type.getNamedType = true

theorem getNamedType_toRef (address : Text → TypeAddress) (type : GraphQLType) :
    (type.toRef address).getNamedType = address type.getNamedType := by
  induction type with
  | named name => rfl
  | list _ ih => exact ih
  | nonNull _ ih => exact ih

theorem references_toObject (address : Text → TypeAddress) (type : GraphQLNamedType) :
    (type.toObject address).references = type.references.map address := by
  have hargs (args : Dict Text GraphQLArgument) :
      (argRefs address args).items.map (fun arg => arg.2.getNamedType) =
        (args.items.map fun arg => arg.2.type.getNamedType).map address := by
    rw [argRefs, Dict.map, List.map_map, List.map_map]
    exact List.map_congr_left fun arg _ => getNamedType_toRef address arg.2.type
  have hfields (fields : Dict Text GraphQLField) :
      (fields.map fun field => (⟨field.type.toRef address, argRefs address field.args⟩ :
        FieldObject TypeAddress)).items.flatMap (fun field =>
          field.2.type.getNamedType :: field.2.args.items.map fun arg => arg.2.getNamedType) =
        (fields.items.flatMap fun field => field.2.type.getNamedType ::
          field.2.args.items.map fun arg => arg.2.type.getNamedType).map address := by
    rw [Dict.map, List.flatMap_map, List.map_flatMap]
    refine List.flatMap_congr fun field _ => ?_
    rw [List.map_cons, hargs, getNamedType_toRef]
  cases type with
  | scalar | «enum» => rfl
  | union types => rfl
  | inputObject fields => exact hargs fields
  | object fields interfaces | interface fields interfaces =>
      rw [GraphQLNamedType.toObject, TypeObject.references, GraphQLNamedType.references,
        hfields, List.map_append]

/-! ## Sorting a schema -/

section Sorting

variable {schema : GraphQLSchema}

theorem references_mapNamedType {name target : Text} {type : GraphQLNamedType} :
    target ∈ (mapNamedType name type).references ↔ target ∈ type.references := by
  have hargs (args : Dict Text GraphQLArgument) :
      target ∈ (sortObjMap args).items.map (fun arg => arg.2.type.getNamedType) ↔
        target ∈ args.items.map fun arg => arg.2.type.getNamedType :=
    ((sortObjMap_perm args).map _).mem_iff
  have hfields (fields : Dict Text GraphQLField) :
      (target ∈ (sortObjMap (fields.map mapField)).items.flatMap fun field =>
          field.2.type.getNamedType ::
            field.2.args.items.map fun arg => arg.2.type.getNamedType) ↔
        target ∈ fields.items.flatMap fun field => field.2.type.getNamedType ::
          field.2.args.items.map fun arg => arg.2.type.getNamedType := by
    rw [((sortObjMap_perm (fields.map mapField)).flatMap_right _).mem_iff, Dict.map,
      List.flatMap_map, List.mem_flatMap, List.mem_flatMap]
    refine exists_congr fun field => and_congr_right fun _ => ?_
    rw [List.mem_cons, List.mem_cons, mapField, hargs]
  unfold mapNamedType
  split
  · rfl
  · cases type with
    | scalar | «enum» => rfl
    | union types => exact (sortByName_perm types).mem_iff
    | inputObject fields => exact hargs fields
    | object fields interfaces | interface fields interfaces =>
        simp only [GraphQLNamedType.references, List.mem_append, hfields,
          (sortByName_perm interfaces).mem_iff]

/-- The types that every schema shares refer only to each other. -/
theorem references_stdTypeMap : ∀ entry ∈ stdTypeMap.items, ∀ target ∈ entry.2.references,
    isStdType target = true := by
  decide +kernel

@[simp]
theorem name_getNamedType (name : Text) : (getNamedType name).name = name := by
  unfold getNamedType
  split <;> rfl

theorem getNamedType_injective : Function.Injective getNamedType :=
  Function.LeftInverse.injective name_getNamedType

theorem getNamedType_of_std {name : Text} (h : isStdType name = true) :
    getNamedType name = .given name := if_pos h

theorem mapNamedType_of_std {name : Text} (h : isStdType name = true)
    (type : GraphQLNamedType) : mapNamedType name type = type := if_pos h

/-- The types of the new schema are those of the old one with sorted parts. -/
theorem typeAt_getNamedType (h : HasAllTypes schema) {name : Text} {type : GraphQLNamedType}
    (htype : schema.getType name = some type) :
    typeAt schema (getNamedType name) = mapNamedType name type := by
  unfold getNamedType
  by_cases hstd : isStdType name = true
  · rw [if_pos hstd, typeAt, h.std name type htype hstd, mapNamedType_of_std hstd]
    rfl
  · rw [if_neg hstd, typeAt, htype]
    rfl

/-- The types of the new schema refer to each other only. -/
theorem references_typeAt (h : HasAllTypes schema) {name : Text} {type : GraphQLNamedType}
    (htype : schema.getType name = some type) {target : TypeAddress}
    (htarget : target ∈ ((sortingHeap schema).definition (getNamedType name)).references) :
    ∃ targetName ∈ schema.typeMap.keys, getNamedType targetName = target := by
  have hdefinition : (sortingHeap schema).definition (getNamedType name) =
      (mapNamedType name type).toObject (getNamedType name).refer := by
    rw [← typeAt_getNamedType h htype]
    rfl
  rw [hdefinition, references_toObject, List.mem_map] at htarget
  obtain ⟨targetName, htargetName, rfl⟩ := htarget
  rw [references_mapNamedType] at htargetName
  refine ⟨targetName, h.closed name type htype targetName htargetName, ?_⟩
  unfold getNamedType
  by_cases hstd : isStdType name = true
  · have hentry := Dict.mem_items_iff.mpr (h.std name type htype hstd)
    rw [if_pos hstd, if_pos (references_stdTypeMap _ hentry targetName htargetName)]
    rfl
  · rw [if_neg hstd]
    rfl

/-- The schema with sorted parts, whose types are sorted themselves. -/
def sortedSchema (schema : GraphQLSchema) : GraphQLSchema :=
  { schema with
    typeMap := sortObjMap (mapEntries mapNamedType schema.typeMap)
    directives := sortedDirectives schema }

theorem references_argRefs (address : Text → TypeAddress) (args : Dict Text GraphQLArgument) :
    (argRefs address args).items.map (fun arg => arg.2.getNamedType) =
      args.items.map fun arg => address arg.2.type.getNamedType := by
  rw [argRefs, Dict.map, List.map_map]
  exact List.map_congr_left fun arg _ => getNamedType_toRef address arg.2.type

/-- The types of the arguments of directives are those of the types of the new schema. -/
theorem references_directiveObject (hstd : SpecifiedUseStdTypes schema)
    {directive : GraphQLDirective} (hdirective : directive ∈ sortedDirectives schema)
    {target : TypeAddress} (htarget : target ∈ (directiveObject directive).references) :
    ∃ source ∈ schema.directives, ∃ arg ∈ source.args.items,
      getNamedType arg.2.type.getNamedType = target := by
  obtain ⟨source, hsource, rfl⟩ := List.mem_map.mp (mem_sortBy.mp hdirective)
  refine ⟨source, hsource, ?_⟩
  rw [directiveObject, DirectiveObject.references, references_argRefs] at htarget
  obtain ⟨arg, harg, rfl⟩ := List.mem_map.mp htarget
  unfold mapDirective at harg ⊢
  by_cases hspecified : isSpecifiedDirective source = true
  · rw [if_pos hspecified] at harg ⊢
    rw [if_pos hspecified]
    exact ⟨arg, harg, getNamedType_of_std (hstd source hsource hspecified arg harg)⟩
  · rw [if_neg hspecified] at harg ⊢
    have hmapped : ¬isSpecifiedDirective { source with
        locations := sortByName source.locations, args := sortObjMap source.args } = true :=
      hspecified
    rw [if_neg hmapped]
    exact ⟨arg, (sortObjMap_perm source.args).mem_iff.mp harg, rfl⟩

theorem mem_types_iff {target : TypeAddress} : target ∈ (sortedKwargs schema).types ↔
    ∃ name ∈ schema.typeMap.keys, getNamedType name = target := by
  rw [sortedKwargs, List.mem_map]
  exact exists_congr fun name => and_congr_left fun _ => (sortByName_perm _).mem_iff

theorem names_sortedKwargs : (sortedKwargs schema).types.map (sortingHeap schema).name =
    sortByName schema.typeMap.keys := by
  rw [sortedKwargs, List.map_map]
  exact (List.map_congr_left fun name _ => name_getNamedType name).trans (List.map_id _)

/-- All types that the new schema is given are types of it. -/
theorem givenTypes_sortedKwargs (h : HasAllTypes schema) (hstd : SpecifiedUseStdTypes schema) :
    ∀ type ∈ givenTypes (sortingHeap schema) (sortedKwargs schema),
      type ∈ (sortedKwargs schema).types := by
  have hroot : ∀ root : Option Text, (∀ name ∈ root.toList, name ∈ schema.typeMap.keys) →
      ∀ type ∈ (root.map getNamedType).toList, type ∈ (sortedKwargs schema).types := by
    intro root hroot type htype
    rw [Option.toList_map] at htype
    obtain ⟨name, hname, rfl⟩ := List.mem_map.mp htype
    exact mem_types_iff.mpr ⟨name, hroot name hname, rfl⟩
  have hroots := h.roots
  simp only [List.forall_mem_append] at hroots
  simp only [givenTypes, List.forall_mem_append]
  refine ⟨fun _ htype => htype, hroot _ hroots.1, hroot _ hroots.2.1, hroot _ hroots.2.2, ?_, ?_⟩
  · intro type htype
    obtain ⟨given, hgiven, htype⟩ := List.mem_flatMap.mp htype
    have hallDirectives : (sortedKwargs schema).allDirectives (sortingHeap schema) =
        (sortedDirectives schema).map fun directive => some (directiveObject directive) := rfl
    rw [hallDirectives] at hgiven
    obtain ⟨directive, hdirective, rfl⟩ := List.mem_map.mp hgiven
    rw [Option.toList_some, List.flatMap_singleton] at htype
    obtain ⟨source, hsource, arg, harg, rfl⟩ := references_directiveObject hstd hdirective htype
    exact mem_types_iff.mpr ⟨_, h.directives source hsource arg harg, rfl⟩
  · refine List.forall_mem_singleton.mpr ?_
    exact mem_types_iff.mpr ⟨_, h.introspection, rfl⟩

/-- The new types in the order of their names. -/
theorem typeMap_sortedSchema (h : HasAllTypes schema) :
    (sortByName schema.typeMap.keys).map
        (fun name => (name, typeAt schema (getNamedType name))) =
      (sortedSchema schema).typeMap.items := by
  have hkeys : sortByName schema.typeMap.keys =
      (sortBy nameLe Prod.fst schema.typeMap.items).map Prod.fst :=
    (map_sortBy (fun _ => rfl) schema.typeMap.items).symm
  have hsorted : (sortedSchema schema).typeMap.items =
      (sortBy nameLe Prod.fst schema.typeMap.items).map fun entry =>
        (entry.1, mapNamedType entry.1 entry.2) :=
    (map_sortBy (fun _ => rfl) schema.typeMap.items).symm
  rw [hkeys, hsorted, List.map_map]
  refine List.map_congr_left fun entry hentry => ?_
  have hget : schema.getType entry.1 = some entry.2 :=
    Dict.mem_items_iff.mp (mem_sortBy.mp hentry)
  exact Prod.ext rfl (typeAt_getNamedType h hget)

/-- A schema can be sorted. -/
theorem lexicographicSortSchema_eq (h : HasAllTypes schema) (hstd : SpecifiedUseStdTypes schema)
    (depth : ℕ) : lexicographicSortSchema schema (depth + 2) = .ok (sortedSchema schema) := by
  have hnodup : ((sortedKwargs schema).types.map (sortingHeap schema).name).Nodup := by
    rw [names_sortedKwargs]
    exact (sortByName_perm _).nodup_iff.mpr schema.typeMap.nodup_keys
  have hnames : ∀ type ∈ (sortedKwargs schema).types, (sortingHeap schema).name type ≠ [] := by
    intro type htype
    obtain ⟨name, hname, rfl⟩ := mem_types_iff.mp htype
    change (getNamedType name).name ≠ []
    rw [name_getNamedType]
    exact h.named name hname
  have hclosed : ∀ type ∈ (sortedKwargs schema).types,
      ∀ target ∈ ((sortingHeap schema).definition type).references,
        target ∈ (sortedKwargs schema).types := by
    intro type htype target htarget
    obtain ⟨name, hname, rfl⟩ := mem_types_iff.mp htype
    obtain ⟨definition, hdefinition⟩ := Option.isSome_iff_exists.mp (Dict.mem_keys_iff.mp hname)
    exact mem_types_iff.mpr (references_typeAt h hdefinition htarget)
  obtain ⟨built, hbuilt, hadds⟩ := initSchema_of_closed depth hnodup hnames hclosed
    (givenTypes_sortedKwargs h hstd)
  have htypeMap : built.typeMap.map (typeAt schema) = (sortedSchema schema).typeMap := by
    refine Dict.ext_items ?_
    have hitems : built.typeMap.items = (sortedKwargs schema).types.map fun type =>
        ((sortingHeap schema).name type, type) := hadds.items
    change built.typeMap.items.map (fun entry => (entry.1, typeAt schema entry.2)) = _
    rw [hitems, ← typeMap_sortedSchema h, sortedKwargs, List.map_map, List.map_map]
    exact List.map_congr_left fun name _ => Prod.ext (name_getNamedType name) rfl
  rw [lexicographicSortSchema, hbuilt]
  simp only [bind, Except.bind, pure, Except.pure, htypeMap]
  rfl

end Sorting

end GraphqlCore
