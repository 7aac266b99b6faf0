import GraphqlCore.Type.Hierarchy
import GraphqlCore.Type.TypeCollection

/-!
# The types of a schema are those that are reached

The collection ends on every heap, whatever types are given in whatever order, and has the
types that are reached from what is given.  So the type map has just these, unless two of
them have the same name, and the implementations and subtypes are those that they declare.
-/

namespace GraphqlCore.TypeObjects

open Collecting

variable {ν : Type}

/-! ## What is given and what is reached -/

def next (heap : TypeHeap ν) (type : ν) : List ν := (heap.definition type).references

def DirectiveObject.references (directive : DirectiveObject ν) : List ν :=
  directive.args.items.map fun arg => arg.2.getNamedType

/-- What the types of a schema are collected from. -/
def givenTypes (heap : TypeHeap ν) (kwargs : SchemaKwargs ν) : List ν :=
  kwargs.types ++ (kwargs.query.toList ++ (kwargs.mutation.toList ++
    (kwargs.subscription.toList ++ ((kwargs.allDirectives heap).flatMap
      (fun directive => directive.toList.flatMap DirectiveObject.references) ++
        [heap.introspectionSchema]))))

def Reachable (heap : TypeHeap ν) (kwargs : SchemaKwargs ν) (type : ν) : Prop :=
  ReachedFrom (next heap) (givenTypes heap kwargs) type

theorem Reachable.step {heap : TypeHeap ν} {kwargs : SchemaKwargs ν} {type target : ν}
    (h : Reachable heap kwargs type) (hedge : target ∈ (heap.definition type).references) :
    Reachable heap kwargs target :=
  ReachedFrom.step h hedge

/-! ## The collection -/

theorem foldlM_flatMap {m : Type → Type} [Monad m] [LawfulMonad m] {α β : Type}
    {σ : Type} {f : σ → β → m σ} {g : α → List β} (items : List α) (s : σ) :
    (items.flatMap g).foldlM f s = items.foldlM (fun s item => (g item).foldlM f s) s := by
  induction items generalizing s with
  | nil => rfl
  | cons item rest ih =>
      rw [List.flatMap_cons, List.foldlM_append, List.foldlM_cons]
      exact bind_congr fun s => ih s

section Collection

variable [DecidableEq ν] {heap : TypeHeap ν} {depth : ℕ} {s : RefSet ν}

theorem collectReferencedTypes_eq (depth : ℕ) (s : RefSet ν) (type : TypeRef ν) :
    collectReferencedTypes heap depth s type =
      collect (next heap) SchemaError.tooDeep depth s type.getNamedType := by
  induction depth generalizing s type with
  | zero => rfl
  | succ depth ih =>
      rw [collectReferencedTypes, collect, next]
      simp only [ih]
      split
      · rfl
      · cases heap.definition type.getNamedType with
        | scalar | «enum» => rfl
        | union types => rfl
        | inputObject fields => rw [TypeObject.references, List.foldlM_map]
        | object fields interfaces | interface fields interfaces =>
            rw [TypeObject.references, List.foldlM_append]
            simp only [foldlM_flatMap, List.foldlM_cons, List.foldlM_map]
            rfl

variable [Fintype ν] (heap)

theorem exists_collectReferencedTypes (hdepth : Fintype.card ν < depth) (s : RefSet ν)
    (type : TypeRef ν) :
    ∃ s', collectReferencedTypes heap depth s type = .ok s' ∧
      Collects (next heap) [type.getNamedType] s s' := by
  rw [collectReferencedTypes_eq]
  have hdeep : DeepEnough Finset.univ depth s :=
    lt_of_le_of_lt (Finset.card_le_univ _) hdepth
  exact exists_collect (fun _ _ _ _ => Finset.mem_univ _) hdeep (Finset.mem_univ _)

/-- When all given types are processed, none of them is pending any more. -/
theorem exists_recollect (hdepth : Fintype.card ν < depth) {types : List ν}
    (htypes : ∀ type ∈ types, type ∈ s) (hclosed : ClosedUpTo (next heap) types s) :
    ∃ s', types.foldlM (recollect heap depth) s = .ok s' ∧ (∀ type ∈ s, type ∈ s') ∧
      ClosedUpTo (next heap) [] s' ∧
      ∀ type ∈ s', type ∈ s ∨ ReachedFrom (next heap) types type := by
  induction types generalizing s with
  | nil => exact ⟨s, rfl, fun _ h => h, hclosed, fun _ h => .inl h⟩
  | cons type rest ih =>
      rw [List.forall_mem_cons] at htypes
      obtain ⟨s₁, hrun₁, hcollects⟩ :=
        exists_collectReferencedTypes heap hdepth (s.discard type) (.named type)
      have hsubset := hcollects.subset_of_discard
      obtain ⟨s₂, hrun₂, hsubset₂, hclosed₂, hsound⟩ := ih
        (fun other hother => hsubset other (htypes.2 other hother))
        (hcollects.closedUpTo_of_discard hclosed)
      refine ⟨s₂, ?_, fun other hother => hsubset₂ other (hsubset other hother), hclosed₂, ?_⟩
      · rw [List.foldlM_cons, recollect, if_pos htypes.1, hrun₁]
        exact hrun₂
      · intro other hother
        rcases hsound other hother with hbefore | hreached
        · rcases hcollects.sound other hbefore with hdiscard | hreached
          · exact .inl (RefSet.mem_discard.mp hdiscard).1
          · exact .inr (hreached.mono (List.cons_subset_cons _ (List.nil_subset _)))
        · exact .inr (hreached.mono (List.subset_cons_self _ _))

omit [Fintype ν] in
theorem mem_withInitialTypes {types : List ν} {type : ν} :
    type ∈ withInitialTypes types ↔ type ∈ types := by
  have hfold : ∀ s : RefSet ν, type ∈ types.foldl RefSet.add s ↔ type ∈ s ∨ type ∈ types := by
    induction types with
    | nil => simp
    | cons first rest ih =>
        intro s
        rw [List.foldl_cons, ih, RefSet.mem_add, List.mem_cons, or_assoc]
  rw [withInitialTypes, hfold]
  simp

theorem exists_collectRoot (hdepth : Fintype.card ν < depth) (s : RefSet ν)
    (root : Option ν) :
    ∃ s', collectRoot heap depth s root = .ok s' ∧
      Collects (next heap) root.toList s s' := by
  cases root with
  | none => exact ⟨s, rfl, .nil s⟩
  | some root => exact exists_collectReferencedTypes heap hdepth s (.named root)

theorem exists_collectDirective (hdepth : Fintype.card ν < depth) (s : RefSet ν)
    (directive : Option (DirectiveObject ν)) :
    ∃ s', collectDirective heap depth s directive = .ok s' ∧
      Collects (next heap) (directive.toList.flatMap DirectiveObject.references) s s' := by
  cases directive with
  | none => exact ⟨s, rfl, .nil s⟩
  | some directive =>
      rw [Option.toList_some, List.flatMap_singleton, DirectiveObject.references,
        List.map_eq_flatMap]
      exact exists_foldlM_collects _ _ (fun _ => True) (fun s arg _ _ =>
        exists_collectReferencedTypes heap hdepth s arg.2) (fun _ => id) trivial

/-- The collection ends, and collects the types that are reached from what is given. -/
theorem exists_allReferencedTypes (hdepth : Fintype.card ν < depth)
    (kwargs : SchemaKwargs ν) :
    ∃ s, allReferencedTypes heap depth kwargs = .ok s ∧
      ∀ type, type ∈ s ↔ Reachable heap kwargs type := by
  have hinitial : ClosedUpTo (next heap) kwargs.types (withInitialTypes kwargs.types) :=
    fun type hmem hnot => absurd (mem_withInitialTypes.mp hmem) hnot
  obtain ⟨s₀, hrun₀, hsubset, hclosed, hsound⟩ := exists_recollect heap hdepth
    (fun type hmem => mem_withInitialTypes.mpr hmem) hinitial
  obtain ⟨s₁, hrun₁, hquery⟩ := exists_collectRoot heap hdepth s₀ kwargs.query
  obtain ⟨s₂, hrun₂, hmutation⟩ := exists_collectRoot heap hdepth s₁ kwargs.mutation
  obtain ⟨s₃, hrun₃, hsubscription⟩ :=
    exists_collectRoot heap hdepth s₂ kwargs.subscription
  obtain ⟨s₄, hrun₄, hdirectives⟩ : ∃ s₄, (kwargs.allDirectives heap).foldlM
      (collectDirective heap depth) s₃ = .ok s₄ ∧ Collects (next heap) _ s₃ s₄ :=
    exists_foldlM_collects _ _ (fun _ => True) (fun s directive _ _ =>
      exists_collectDirective heap hdepth s directive) (fun _ => id) trivial
  obtain ⟨s₅, hrun₅, hintrospection⟩ := exists_collectReferencedTypes heap hdepth s₄
    (.named heap.introspectionSchema)
  have hcollects := hquery.append (hmutation.append (hsubscription.append
    (hdirectives.append hintrospection)))
  refine ⟨s₅, ?_, fun type => ⟨fun hmem => ?_, fun hreached => ?_⟩⟩
  · rw [allReferencedTypes, hrun₀]
    simp only [bind, Except.bind, hrun₁, hrun₂, hrun₃, hrun₄]
    exact hrun₅
  · rcases hcollects.sound type hmem with hbefore | hreached
    · rcases hsound type hbefore with hgiven | hreached
      · exact .start (List.mem_append_left _ (mem_withInitialTypes.mp hgiven))
      · exact hreached.mono (List.subset_append_left _ _)
    · exact hreached.mono (List.subset_append_right _ _)
  · refine hreached.mem (fun start hstart => ?_) fun node hnode =>
      hcollects.closedUpTo hclosed node hnode List.not_mem_nil
    rcases List.mem_append.mp hstart with hgiven | hother
    · exact hcollects.subset start (hsubset start (mem_withInitialTypes.mpr hgiven))
    · exact hcollects.starts_mem start hother

end Collection

/-! ## The maps -/

/-- How often the type declares an interface of that name. -/
def declarations (heap : TypeHeap ν) (name : Text) (type : ν) : ℕ :=
  (heap.definition type).interfaces.countP fun iface =>
    isInterfaceType heap iface && decide (heap.name iface = name)

/-- A type of the kind, once for each declaration of an interface of that name. -/
def implementing (heap : TypeHeap ν) (kind : TypeObject ν → Bool) (name : Text) (type : ν) :
    List ν :=
  if kind (heap.definition type) then List.replicate (declarations heap name type) type else []

/-- The types are added to the maps of a schema. -/
structure Adds (heap : TypeHeap ν) (types : List ν) (schema schema' : SchemaObject ν) :
    Prop where
  items : schema'.typeMap.items =
    schema.typeMap.items ++ types.map fun type => (heap.name type, type)
  objects : ∀ name, (schema'.implementationsOf name).objects =
    (schema.implementationsOf name).objects ++
      types.flatMap (implementing heap TypeObject.isObjectType name)
  interfaces : ∀ name, (schema'.implementationsOf name).interfaces =
    (schema.implementationsOf name).interfaces ++
      types.flatMap (implementing heap TypeObject.isInterfaceType name)

section Maps

variable {heap : TypeHeap ν} {schema schema' schema'' : SchemaObject ν} {type : ν}

theorem get_storeImplementations
    {append : InterfaceImplementations ν → InterfaceImplementations ν} (interfaces : List ν)
    (implementationsMap : Dict Text (InterfaceImplementations ν)) (name : Text) :
    ((storeImplementations heap append interfaces implementationsMap).get name).getD {} =
      append^[interfaces.countP fun iface =>
        isInterfaceType heap iface && decide (heap.name iface = name)]
          ((implementationsMap.get name).getD {}) := by
  induction interfaces generalizing implementationsMap with
  | nil => rfl
  | cons iface rest ih =>
      have hcons : storeImplementations heap append (iface :: rest) implementationsMap =
          storeImplementations heap append rest
            (if isInterfaceType heap iface then
              implementationsMap.set (heap.name iface)
                (append ((implementationsMap.get (heap.name iface)).getD {}))
            else implementationsMap) := rfl
      rw [hcons, ih, List.countP_cons]
      cases hiface : isInterfaceType heap iface with
      | false => simp
      | true =>
          by_cases hname : heap.name iface = name
          · simp [hname, Function.iterate_succ_apply]
          · simp [hname, Dict.get_set, Ne.symm hname]

theorem iterate_appendObject (n : ℕ) (implementations : InterfaceImplementations ν) :
    (fun i : InterfaceImplementations ν => { i with objects := i.objects ++ [type] })^[n]
        implementations =
      { implementations with
        objects := implementations.objects ++ List.replicate n type } := by
  induction n generalizing implementations with
  | zero => simp
  | succ n ih => simp [Function.iterate_succ_apply, ih, List.replicate_succ]

theorem iterate_appendInterface (n : ℕ) (implementations : InterfaceImplementations ν) :
    (fun i : InterfaceImplementations ν => { i with interfaces := i.interfaces ++ [type] })^[n]
        implementations =
      { implementations with
        interfaces := implementations.interfaces ++ List.replicate n type } := by
  induction n generalizing implementations with
  | zero => simp
  | succ n ih => simp [Function.iterate_succ_apply, ih, List.replicate_succ]

namespace Adds

theorem nil (schema : SchemaObject ν) : Adds heap [] schema schema where
  items := (List.append_nil _).symm
  objects := fun _ => (List.append_nil _).symm
  interfaces := fun _ => (List.append_nil _).symm

theorem cons {rest : List ν} (h : Adds heap [type] schema schema')
    (h' : Adds heap rest schema' schema'') : Adds heap (type :: rest) schema schema'' where
  items := by rw [h'.items, h.items, List.append_assoc, ← List.map_append, List.singleton_append]
  objects := fun name => by
    rw [h'.objects, h.objects, List.append_assoc, ← List.flatMap_append, List.singleton_append]
  interfaces := fun name => by
    rw [h'.interfaces, h.interfaces, List.append_assoc, ← List.flatMap_append,
      List.singleton_append]

end Adds

/-- A type is added unless its name is taken. -/
theorem addType_cases {type : ν} (hname : heap.name type ≠ []) (schema : SchemaObject ν) :
    (heap.name type ∈ schema.typeMap.keys ∧
      addType heap schema type = .error (.notUnique (heap.name type))) ∨
    ∃ schema', addType heap schema type = .ok schema' ∧ Adds heap [type] schema schema' := by
  rw [addType, if_neg hname]
  by_cases htaken : (schema.typeMap.get (heap.name type)).isSome
  · rw [if_pos htaken]
    exact .inl ⟨Dict.mem_keys_iff.mpr htaken, rfl⟩
  · rw [if_neg htaken]
    refine .inr ⟨_, rfl, ?_, ?_, ?_⟩
    · exact Dict.store_eq_append fun hmem => htaken (Dict.mem_keys_iff.mp hmem)
    · intro name
      rw [List.flatMap_singleton, implementing, declarations]
      cases heap.definition type with
      | object fields interfaces =>
          simp only [SchemaObject.implementationsOf, get_storeImplementations,
            iterate_appendObject]
          rfl
      | interface fields interfaces =>
          simp only [SchemaObject.implementationsOf, get_storeImplementations,
            iterate_appendInterface]
          simp [TypeObject.isObjectType]
      | scalar | union | «enum» | inputObject => exact (List.append_nil _).symm
    · intro name
      rw [List.flatMap_singleton, implementing, declarations]
      cases heap.definition type with
      | object fields interfaces =>
          simp only [SchemaObject.implementationsOf, get_storeImplementations,
            iterate_appendObject]
          simp [TypeObject.isInterfaceType]
      | interface fields interfaces =>
          simp only [SchemaObject.implementationsOf, get_storeImplementations,
            iterate_appendInterface]
          rfl
      | scalar | union | «enum» | inputObject => exact (List.append_nil _).symm

/-- The types are added one after the other, unless two names clash. -/
theorem foldlM_addType_cases {types : List ν} (hnames : ∀ type ∈ types, heap.name type ≠ [])
    (schema : SchemaObject ν) :
    (¬ (schema.typeMap.keys ++ types.map heap.name).Nodup ∧
      ∃ name, types.foldlM (addType heap) schema = .error (.notUnique name)) ∨
    ∃ schema', types.foldlM (addType heap) schema = .ok schema' ∧
      Adds heap types schema schema' := by
  induction types generalizing schema with
  | nil => exact .inr ⟨schema, rfl, .nil schema⟩
  | cons type rest ih =>
      rw [List.forall_mem_cons] at hnames
      rw [List.foldlM_cons]
      rcases addType_cases hnames.1 schema with ⟨htaken, hadd⟩ | ⟨schema₁, hadd, hadds⟩
      · rw [hadd]
        refine .inl ⟨fun hnodup => ?_, _, rfl⟩
        exact List.disjoint_of_nodup_append hnodup htaken (by simp)
      · rw [hadd]
        have hkeys : schema₁.typeMap.keys = schema.typeMap.keys ++ [heap.name type] := by
          rw [Dict.keys, hadds.items, List.map_append]
          rfl
        rcases ih hnames.2 schema₁ with ⟨hclash, hrest⟩ | ⟨schema₂, hrest, hadds₂⟩
        · rw [hkeys, List.append_assoc, List.singleton_append, ← List.map_cons] at hclash
          exact .inl ⟨hclash, hrest⟩
        · exact .inr ⟨schema₂, hrest, hadds.cons hadds₂⟩

end Maps

/-! ## What a schema holds -/

/-- The maps of subtypes that come about by asking for the subtypes of reachable types. -/
inductive Asked (heap : TypeHeap ν) (kwargs : SchemaKwargs ν) (schema : SchemaObject ν) :
    SubTypeMap → Prop
  | start : Asked heap kwargs schema Dict.empty
  | ask {subTypeMap : SubTypeMap} {abstractType maybeSubType : ν}
      (h : Asked heap kwargs schema subTypeMap)
      (hreachable : Reachable heap kwargs abstractType) :
      Asked heap kwargs schema
        (isSubType heap schema subTypeMap abstractType maybeSubType).2

/-- The implementations of a kind are those that declare the interface. -/
structure ExactImplementations (heap : TypeHeap ν) [DecidableEq ν] (kwargs : SchemaKwargs ν)
    (kind : TypeObject ν → Bool) (iface : ν) (types : List ν) : Prop where
  declare : ∀ type ∈ types, Reachable heap kwargs type ∧ kind (heap.definition type) = true
  count : ∀ type, Reachable heap kwargs type → kind (heap.definition type) = true →
    types.count type = (heap.definition type).interfaces.count iface

/-- The abstract type is a union with the member, or an interface that it declares. -/
def DeclaresSubType (heap : TypeHeap ν) (abstractType maybeSubType : ν) : Prop :=
  match heap.definition abstractType with
  | .union types => maybeSubType ∈ types
  | _ => abstractType ∈ (heap.definition maybeSubType).interfaces

/-- The schema holds exactly the reachable types. -/
structure HoldsReachable (heap : TypeHeap ν) [DecidableEq ν] (kwargs : SchemaKwargs ν)
    (schema : SchemaObject ν) : Prop where
  typeMap : ∀ name type, schema.typeMap.get name = some type ↔
    Reachable heap kwargs type ∧ heap.name type = name
  objects : ∀ iface, Reachable heap kwargs iface → isInterfaceType heap iface = true →
    ExactImplementations heap kwargs TypeObject.isObjectType iface
      (getImplementations heap schema iface).objects
  interfaces : ∀ iface, Reachable heap kwargs iface → isInterfaceType heap iface = true →
    ExactImplementations heap kwargs TypeObject.isInterfaceType iface
      (getImplementations heap schema iface).interfaces
  subTypes : ∀ subTypeMap, Asked heap kwargs schema subTypeMap →
    ∀ abstractType, Reachable heap kwargs abstractType →
    (heap.definition abstractType).isAbstractType = true →
    ∀ maybeSubType, Reachable heap kwargs maybeSubType →
      ((isSubType heap schema subTypeMap abstractType maybeSubType).1 = true ↔
        DeclaresSubType heap abstractType maybeSubType)

section Holds

variable {heap : TypeHeap ν} {kwargs : SchemaKwargs ν} {schema : SchemaObject ν}

/-- Different reachable types have different names. -/
def UniqueNames (heap : TypeHeap ν) (kwargs : SchemaKwargs ν) : Prop :=
  ∀ type other, Reachable heap kwargs type → Reachable heap kwargs other →
    heap.name type = heap.name other → type = other

/-- The schema has been made from a set that has exactly the reachable types. -/
structure MadeFrom (heap : TypeHeap ν) (kwargs : SchemaKwargs ν) (types : RefSet ν)
    (schema : SchemaObject ν) : Prop where
  mem_iff : ∀ type, type ∈ types ↔ Reachable heap kwargs type
  adds : Adds heap types.elems {} schema

theorem Reachable.interface {type iface : ν} (h : Reachable heap kwargs type)
    (hiface : iface ∈ (heap.definition type).interfaces) : Reachable heap kwargs iface := by
  apply h.step
  cases hdefinition : heap.definition type with
  | object | interface =>
      rw [hdefinition] at hiface
      exact List.mem_append_left _ hiface
  | scalar | union | «enum» | inputObject =>
      rw [hdefinition] at hiface
      cases hiface

namespace MadeFrom

variable {types : RefSet ν}

theorem get_typeMap (h : MadeFrom heap kwargs types schema) (name : Text) (type : ν) :
    schema.typeMap.get name = some type ↔ Reachable heap kwargs type ∧ heap.name type = name := by
  rw [← Dict.mem_items_iff, h.adds.items, ← h.mem_iff]
  constructor
  · intro hmem
    obtain ⟨other, hother, heq⟩ := List.mem_map.mp hmem
    obtain ⟨rfl, rfl⟩ := Prod.mk.inj heq
    exact ⟨hother, rfl⟩
  · rintro ⟨htype, rfl⟩
    exact List.mem_map.mpr ⟨type, htype, rfl⟩

theorem uniqueNames (h : MadeFrom heap kwargs types schema) : UniqueNames heap kwargs := by
  intro type other htype hother hname
  have hget := (h.get_typeMap _ _).mpr ⟨htype, rfl⟩
  have hgetOther := (h.get_typeMap _ _).mpr ⟨hother, hname.symm⟩
  exact Option.some.inj (hget.symm.trans hgetOther)

/-- Interfaces are told apart by their names. -/
theorem declarations_eq [DecidableEq ν] (h : MadeFrom heap kwargs types schema) {iface type : ν}
    (hiface : Reachable heap kwargs iface) (hkind : isInterfaceType heap iface = true)
    (htype : Reachable heap kwargs type) :
    declarations heap (heap.name iface) type =
      (heap.definition type).interfaces.count iface := by
  refine List.countP_congr fun other hother => ?_
  rw [Bool.and_eq_true, decide_eq_true_iff, beq_iff_eq]
  constructor
  · rintro ⟨-, hname⟩
    exact h.uniqueNames other iface (htype.interface hother) hiface hname
  · rintro rfl
    exact ⟨hkind, rfl⟩

theorem count_flatMap_implementing [DecidableEq ν] {kind : TypeObject ν → Bool} {name : Text}
    {type : ν} {elems : List ν} (hnodup : elems.Nodup) (hmem : type ∈ elems)
    (hkind : kind (heap.definition type) = true) :
    (elems.flatMap (implementing heap kind name)).count type = declarations heap name type := by
  have hself : ∀ other, other ≠ type → (implementing heap kind name other).count type = 0 := by
    intro other hne
    rw [implementing]
    split
    · exact List.count_eq_zero.mpr fun hmem => hne (List.eq_of_mem_replicate hmem).symm
    · rfl
  induction elems with
  | nil => cases hmem
  | cons first rest ih =>
      rw [List.nodup_cons] at hnodup
      rw [List.flatMap_cons, List.count_append]
      by_cases heq : first = type
      · subst heq
        have hrest : (rest.flatMap (implementing heap kind name)).count first = 0 := by
          refine List.count_eq_zero.mpr fun hfound => ?_
          obtain ⟨other, hother, hfound⟩ := List.mem_flatMap.mp hfound
          have hne : other ≠ first := fun heq => hnodup.1 (heq ▸ hother)
          exact List.count_eq_zero.mp (hself other hne) hfound
        rw [hrest, implementing, if_pos hkind, List.count_replicate_self, Nat.add_zero]
      · rw [hself first heq, Nat.zero_add]
        exact ih hnodup.2 ((List.mem_cons.mp hmem).resolve_left (Ne.symm heq))

theorem exactImplementations [DecidableEq ν] (h : MadeFrom heap kwargs types schema)
    {kind : TypeObject ν → Bool} {iface : ν} (hiface : Reachable heap kwargs iface)
    (hkind : isInterfaceType heap iface = true) :
    ExactImplementations heap kwargs kind iface
      (types.elems.flatMap (implementing heap kind (heap.name iface))) where
  declare := by
    intro type hmem
    obtain ⟨other, hother, hfound⟩ := List.mem_flatMap.mp hmem
    rw [implementing] at hfound
    split at hfound
    · rename_i hkind
      obtain rfl := List.eq_of_mem_replicate hfound
      exact ⟨(h.mem_iff _).mp hother, hkind⟩
    · cases hfound
  count := by
    intro type htype hkind'
    rw [count_flatMap_implementing types.nodup ((h.mem_iff type).mpr htype) hkind',
      h.declarations_eq hiface hkind htype]

theorem objects_eq (h : MadeFrom heap kwargs types schema) (iface : ν) :
    (getImplementations heap schema iface).objects = types.elems.flatMap
      (implementing heap TypeObject.isObjectType (heap.name iface)) :=
  h.adds.objects (heap.name iface)

theorem interfaces_eq (h : MadeFrom heap kwargs types schema) (iface : ν) :
    (getImplementations heap schema iface).interfaces = types.elems.flatMap
      (implementing heap TypeObject.isInterfaceType (heap.name iface)) :=
  h.adds.interfaces (heap.name iface)

section SubTypes

variable [DecidableEq ν]

/-- The implementations of both kinds are the types that declare the interface. -/
theorem mem_implementations_iff (h : MadeFrom heap kwargs types schema) {iface type : ν}
    (hiface : Reachable heap kwargs iface) (hkind : isInterfaceType heap iface = true)
    (htype : Reachable heap kwargs type) :
    type ∈ (getImplementations heap schema iface).objects ∨
        type ∈ (getImplementations heap schema iface).interfaces ↔
      iface ∈ (heap.definition type).interfaces := by
  have hexact (kind : TypeObject ν → Bool) : ExactImplementations heap kwargs kind iface _ :=
    h.exactImplementations hiface hkind
  have hmem {kind : TypeObject ν → Bool} (hkind : kind (heap.definition type) = true) :
      type ∈ types.elems.flatMap (implementing heap kind (heap.name iface)) ↔
        iface ∈ (heap.definition type).interfaces := by
    rw [← List.count_pos_iff, ← List.count_pos_iff, (hexact kind).count type htype hkind]
  rw [h.objects_eq, h.interfaces_eq]
  constructor
  · rintro (hobject | hinterface)
    · exact (hmem ((hexact _).declare type hobject).2).mp hobject
    · exact (hmem ((hexact _).declare type hinterface).2).mp hinterface
  · intro hdeclares
    cases hdefinition : heap.definition type with
    | object fields interfaces =>
        exact .inl ((hmem (by rw [hdefinition]; rfl)).mpr hdeclares)
    | interface fields interfaces =>
        exact .inr ((hmem (by rw [hdefinition]; rfl)).mpr hdeclares)
    | scalar | union | «enum» | inputObject =>
        rw [hdefinition] at hdeclares
        cases hdeclares

/-- The names of the subtypes are those of the types that are declared to be subtypes. -/
theorem mem_subTypeNames_iff (h : MadeFrom heap kwargs types schema) {abstractType type : ν}
    (habstract : Reachable heap kwargs abstractType)
    (hkind : (heap.definition abstractType).isAbstractType = true)
    (htype : Reachable heap kwargs type) :
    heap.name type ∈ subTypeNames heap schema abstractType ↔
      DeclaresSubType heap abstractType type := by
  unfold subTypeNames DeclaresSubType
  cases hdefinition : heap.definition abstractType with
  | union members =>
      constructor
      · intro hmem
        obtain ⟨member, hmember, hname⟩ := List.mem_map.mp hmem
        have hreachable : Reachable heap kwargs member := by
          apply habstract.step
          rw [hdefinition]
          exact hmember
        exact h.uniqueNames member type hreachable htype hname ▸ hmember
      · exact fun hmem => List.mem_map_of_mem hmem
  | interface fields interfaces =>
      have hinterface : isInterfaceType heap abstractType = true := by
        rw [isInterfaceType, hdefinition]
        rfl
      simp only
      rw [← h.mem_implementations_iff habstract hinterface htype, ← List.map_append,
        ← List.mem_append]
      constructor
      · intro hmem
        obtain ⟨other, hother, hname⟩ := List.mem_map.mp hmem
        have hreachable : Reachable heap kwargs other := by
          rw [List.mem_append, h.objects_eq, h.interfaces_eq] at hother
          rcases hother with hother | hother
          · exact ((h.exactImplementations habstract hinterface).declare other hother).1
          · exact ((h.exactImplementations habstract hinterface).declare other hother).1
        exact h.uniqueNames other type hreachable htype hname ▸ hother
      · exact fun hmem => List.mem_map_of_mem hmem
  | scalar | object | «enum» | inputObject =>
      rw [hdefinition] at hkind
      cases hkind

omit [DecidableEq ν] in
/-- What is kept for the name of a reachable type are the names of its subtypes. -/
theorem get_of_asked (h : MadeFrom heap kwargs types schema) {subTypeMap : SubTypeMap}
    (hasked : Asked heap kwargs schema subTypeMap) {abstractType : ν}
    (habstract : Reachable heap kwargs abstractType) {names : List Text}
    (hget : subTypeMap.get (heap.name abstractType) = some names) :
    names = subTypeNames heap schema abstractType := by
  induction hasked generalizing names with
  | start => cases hget
  | @ask subTypeMap other maybeSubType _ hother ih =>
      rw [isSubType] at hget
      split at hget
      · exact ih hget
      · rw [Dict.get_set] at hget
        split at hget
        · rename_i hname
          rw [← Option.some.inj hget, h.uniqueNames abstractType other habstract hother hname]
        · exact ih hget

theorem isSubType_iff (h : MadeFrom heap kwargs types schema) {subTypeMap : SubTypeMap}
    (hasked : Asked heap kwargs schema subTypeMap) {abstractType type : ν}
    (habstract : Reachable heap kwargs abstractType)
    (hkind : (heap.definition abstractType).isAbstractType = true)
    (htype : Reachable heap kwargs type) :
    (isSubType heap schema subTypeMap abstractType type).1 = true ↔
      DeclaresSubType heap abstractType type := by
  rw [← h.mem_subTypeNames_iff habstract hkind htype, isSubType]
  split
  · rename_i names hget
    rw [h.get_of_asked hasked habstract hget, decide_eq_true_iff]
  · rw [decide_eq_true_iff]

theorem holdsReachable (h : MadeFrom heap kwargs types schema) :
    HoldsReachable heap kwargs schema where
  typeMap := h.get_typeMap
  objects := fun iface hiface hkind => by
    rw [h.objects_eq]
    exact h.exactImplementations hiface hkind
  interfaces := fun iface hiface hkind => by
    rw [h.interfaces_eq]
    exact h.exactImplementations hiface hkind
  subTypes := fun _ hasked _ habstract hkind _ htype =>
    h.isSubType_iff hasked habstract hkind htype

end SubTypes

end MadeFrom

/-- The constructor makes a schema of the reachable types, unless two names clash. -/
theorem initSchema_cases [DecidableEq ν] [Fintype ν] (heap : NamedHeap ν)
    (kwargs : SchemaKwargs ν) {depth : ℕ} (hdepth : Fintype.card ν < depth) :
    (¬ UniqueNames heap.toTypeHeap kwargs ∧
      ∃ name, initSchema heap.toTypeHeap depth kwargs = .error (.notUnique name)) ∨
    ∃ types schema, initSchema heap.toTypeHeap depth kwargs = .ok schema ∧
      MadeFrom heap.toTypeHeap kwargs types schema := by
  obtain ⟨types, hrun, hmem⟩ := exists_allReferencedTypes heap.toTypeHeap hdepth kwargs
  have hinit : initSchema heap.toTypeHeap depth kwargs =
      types.elems.foldlM (addType heap.toTypeHeap) {} := by
    rw [initSchema, hrun]
    rfl
  rw [hinit]
  rcases foldlM_addType_cases (fun type _ => heap.name_ne type) {}
    with ⟨hclash, herror⟩ | ⟨schema, hok, hadds⟩
  · refine .inl ⟨fun hunique => hclash ?_, herror⟩
    rw [show ({} : SchemaObject ν).typeMap.keys = [] from rfl, List.nil_append]
    refine types.nodup.map_on fun type htype other hother hname => ?_
    exact hunique type other ((hmem type).mp htype) ((hmem other).mp hother) hname
  · exact .inr ⟨types, schema, hok, hmem, hadds⟩

end Holds

/-! ## Main result -/

/-- A schema is made of exactly the reachable types.  An error is raised if and only if two
of them share a name. -/
theorem initSchema_holdsReachable [DecidableEq ν] [Fintype ν] (heap : NamedHeap ν)
    (kwargs : SchemaKwargs ν) (depth : ℕ) (hdepth : Fintype.card ν < depth) :
    ((∃ name, initSchema heap.toTypeHeap depth kwargs = .error (.notUnique name)) ↔
        ∃ type other, Reachable heap.toTypeHeap kwargs type ∧
          Reachable heap.toTypeHeap kwargs other ∧
          type ≠ other ∧ heap.name type = heap.name other) ∧
      (∀ error, initSchema heap.toTypeHeap depth kwargs = .error error →
        ∃ name, error = .notUnique name) ∧
      ∀ schema, initSchema heap.toTypeHeap depth kwargs = .ok schema →
        HoldsReachable heap.toTypeHeap kwargs schema := by
  rcases initSchema_cases heap kwargs hdepth with ⟨hclash, name, herror⟩ |
    ⟨types, schema, hok, hmade⟩
  · refine ⟨iff_of_true ⟨name, herror⟩ ?_, ?_, ?_⟩
    · simp only [UniqueNames, not_forall, exists_prop] at hclash
      obtain ⟨type, other, htype, hother, hname, hne⟩ := hclash
      exact ⟨type, other, htype, hother, hne, hname⟩
    · intro error h
      exact ⟨name, (Except.error.inj (herror.symm.trans h)).symm⟩
    · intro schema h
      cases herror.symm.trans h
  · refine ⟨iff_of_false ?_ ?_, ?_, ?_⟩
    · rintro ⟨name, h⟩
      cases hok.symm.trans h
    · rintro ⟨type, other, htype, hother, hne, hname⟩
      exact hne (hmade.uniqueNames type other htype hother hname)
    · intro error h
      cases hok.symm.trans h
    · intro schema' h
      rw [← Except.ok.inj (hok.symm.trans h)]
      exact hmade.holdsReachable

/-- A query type and an interface that refer to each other, a scalar, and the introspection
type of schemas. -/
def nodeHeap : NamedHeap (Fin 4) where
  name type := [str "Query", str "Node", str "String", str "__Schema"].get type
  name_ne := by decide
  definition
    | 0 => .object (Dict.empty.set (str "node") { type := .named 1 }) [1]
    | 1 => .interface (Dict.empty.set (str "query")
        { type := .nonNull (.named 0), args := Dict.empty.set (str "id") (.named 2) }) []
    | 2 => .scalar
    | 3 => .object (Dict.empty.set (str "description") { type := .named 2 }) []
  introspectionSchema := 3
  specifiedDirectives := []

/-- The query type is given twice. -/
def nodeKwargs : SchemaKwargs (Fin 4) where
  query := some 0
  types := [0, 1, 0]

theorem nodeSchema_holdsReachable :
    ∃ schema, initSchema nodeHeap.toTypeHeap 5 nodeKwargs = .ok schema ∧
      HoldsReachable nodeHeap.toTypeHeap nodeKwargs schema := by
  have hholds := initSchema_holdsReachable nodeHeap nodeKwargs 5 (by decide)
  exact ⟨_, rfl, hholds.2.2 _ rfl⟩

/-! ## The order of the types -/

section Order

variable [DecidableEq ν] {heap : TypeHeap ν} {kwargs : SchemaKwargs ν} {depth : ℕ}
  {s : RefSet ν}

theorem collectReferencedTypes_of_mem {type : TypeRef ν} (hmem : type.getNamedType ∈ s) :
    collectReferencedTypes heap (depth + 1) s type = .ok s := by
  rw [collectReferencedTypes_eq, collect, if_pos hmem]

theorem foldlM_eq_ok {α β ε : Type} {f : β → α → Except ε β} {items : List α} {b : β}
    (h : ∀ item ∈ items, f b item = .ok b) : items.foldlM f b = .ok b := by
  induction items with
  | nil => rfl
  | cons item rest ih =>
      rw [List.forall_mem_cons] at h
      rw [List.foldlM_cons, h.1]
      exact ih h.2

/-- A type is collected alone if the types that it refers to are there. -/
theorem collectReferencedTypes_of_closed {type : ν} (hnew : type ∉ s)
    (hclosed : ∀ target ∈ (heap.definition type).references, target ∈ s.add type) :
    collectReferencedTypes heap (depth + 2) s (.named type) = .ok (s.add type) := by
  rw [collectReferencedTypes_eq, TypeRef.getNamedType, collect, if_neg hnew]
  refine foldlM_eq_ok fun target htarget => ?_
  rw [collect, if_pos (hclosed target htarget)]

/-- The types that are given keep their order, if they refer to each other only. -/
theorem foldlM_recollect (depth : ℕ) {types : List ν}
    (hclosed : ∀ type ∈ types, ∀ target ∈ (heap.definition type).references, target ∈ types)
    {processed rest : List ν} (htypes : types = processed ++ rest)
    (hs : s.elems = rest ++ processed) :
    ∃ s', rest.foldlM (recollect heap (depth + 2)) s = .ok s' ∧ s'.elems = types := by
  induction rest generalizing processed s with
  | nil => exact ⟨s, rfl, by rw [hs, htypes, List.append_nil, List.nil_append]⟩
  | cons type rest ih =>
      have hsame : ∀ other, other ∈ s ↔ other ∈ types := by
        intro other
        rw [RefSet.mem_def, hs, htypes, List.mem_append, List.mem_append, or_comm]
      have hmem : type ∈ types := htypes ▸ List.mem_append_right _ List.mem_cons_self
      have hnot : type ∉ s.discard type := fun h => (RefSet.mem_discard.mp h).2 rfl
      have hrun : collectReferencedTypes heap (depth + 2) (s.discard type) (.named type) =
          .ok ((s.discard type).add type) := by
        refine collectReferencedTypes_of_closed hnot fun target htarget => ?_
        rw [RefSet.mem_add, RefSet.mem_discard, hsame]
        by_cases heq : target = type
        · exact .inr heq
        · exact .inl ⟨hclosed type hmem target htarget, heq⟩
      have hrest : type ∉ rest ++ processed := by
        have hnodup' := s.nodup
        rw [hs, List.cons_append, List.nodup_cons] at hnodup'
        exact hnodup'.1
      have hdiscard : (s.discard type).elems = rest ++ processed := by
        have hremove : (s.discard type).elems = OrderedSet.remove s.elems type := rfl
        rw [hremove, hs, List.cons_append, OrderedSet.remove, List.filter_cons_of_neg (by simp)]
        exact OrderedSet.remove_of_not_mem hrest
      have hadd : ((s.discard type).add type).elems = rest ++ (processed ++ [type]) := by
        have helems : ((s.discard type).add type).elems = (s.discard type).elems ++ [type] :=
          if_neg hnot
        rw [helems, hdiscard, List.append_assoc]
      obtain ⟨s', hrun', helems⟩ := ih (by rw [htypes, List.append_assoc]; rfl) hadd
      refine ⟨s', ?_, helems⟩
      rw [List.foldlM_cons, recollect, if_pos ((hsame type).mpr hmem), hrun]
      exact hrun'

theorem withInitialTypes_elems {types : List ν} (hnodup : types.Nodup) :
    (withInitialTypes types).elems = types := by
  have hfold : ∀ (types : List ν) (s : RefSet ν),
      (types.foldl RefSet.add s).elems = types.foldl OrderedSet.add s.elems := by
    intro types
    induction types with
    | nil => exact fun _ => rfl
    | cons type rest ih => exact fun s => ih (s.add type)
  rw [withInitialTypes, hfold]
  exact OrderedSet.foldl_add_of_nodup hnodup

/-- If the types that are given include all others, a schema has them in that order. -/
theorem allReferencedTypes_of_closed (depth : ℕ) (hnodup : kwargs.types.Nodup)
    (hclosed : ∀ type ∈ kwargs.types, ∀ target ∈ (heap.definition type).references,
      target ∈ kwargs.types)
    (hgiven : ∀ type ∈ givenTypes heap kwargs, type ∈ kwargs.types) :
    ∃ s, allReferencedTypes heap (depth + 2) kwargs = .ok s ∧ s.elems = kwargs.types := by
  have hinitial : (withInitialTypes kwargs.types).elems = kwargs.types ++ [] := by
    rw [withInitialTypes_elems hnodup, List.append_nil]
  obtain ⟨s, hrun, helems⟩ :=
    foldlM_recollect depth hclosed (List.nil_append _).symm hinitial
  have hmem : ∀ type ∈ givenTypes heap kwargs, type ∈ s := by
    intro type htype
    rw [RefSet.mem_def, helems]
    exact hgiven type htype
  simp only [givenTypes, List.forall_mem_append] at hmem
  obtain ⟨-, hquery, hmutation, hsubscription, hdirectives, hintrospection⟩ := hmem
  have hroot : ∀ root : Option ν, (∀ type ∈ root.toList, type ∈ s) →
      collectRoot heap (depth + 2) s root = .ok s := by
    intro root hroot
    cases root with
    | none => rfl
    | some root =>
        exact collectReferencedTypes_of_mem (hroot root (List.mem_singleton_self root))
  have hdirective : (kwargs.allDirectives heap).foldlM
      (collectDirective heap (depth + 2)) s = .ok s := by
    refine foldlM_eq_ok fun directive hdirective => ?_
    cases directive with
    | none => rfl
    | some directive =>
        refine foldlM_eq_ok fun arg harg => collectReferencedTypes_of_mem ?_
        refine hdirectives _ (List.mem_flatMap.mpr ⟨_, hdirective, ?_⟩)
        rw [Option.toList_some, List.flatMap_singleton]
        exact List.mem_map_of_mem harg
  refine ⟨s, ?_, helems⟩
  rw [allReferencedTypes, hrun]
  simp only [bind, Except.bind, hroot kwargs.query hquery, hroot kwargs.mutation hmutation,
    hroot kwargs.subscription hsubscription, hdirective]
  exact collectReferencedTypes_of_mem (hintrospection _ (List.mem_singleton_self _))

/-- A schema can be made again of its types, which then come in the order that is given. -/
theorem initSchema_of_closed (depth : ℕ) (hnodup : (kwargs.types.map heap.name).Nodup)
    (hnames : ∀ type ∈ kwargs.types, heap.name type ≠ [])
    (hclosed : ∀ type ∈ kwargs.types, ∀ target ∈ (heap.definition type).references,
      target ∈ kwargs.types)
    (hgiven : ∀ type ∈ givenTypes heap kwargs, type ∈ kwargs.types) :
    ∃ schema, initSchema heap (depth + 2) kwargs = .ok schema ∧
      Adds heap kwargs.types {} schema := by
  obtain ⟨s, hrun, helems⟩ :=
    allReferencedTypes_of_closed depth hnodup.of_map hclosed hgiven
  have hinit : initSchema heap (depth + 2) kwargs = kwargs.types.foldlM (addType heap) {} := by
    rw [initSchema, hrun, ← helems]
    rfl
  rw [hinit]
  rcases foldlM_addType_cases hnames {} with ⟨hclash, -⟩ | hadds
  · exact absurd hnodup hclash
  · exact hadds

end Order

/-! ## Schemas that refer to types by name -/

/-- A reference by name, which is possible once names are unique. -/
def TypeRef.toType (heap : TypeHeap ν) : TypeRef ν → GraphQLType
  | .named type => .named (heap.name type)
  | .list ofType => .list (ofType.toType heap)
  | .nonNull ofType => .nonNull (ofType.toType heap)

def FieldObject.toField (heap : TypeHeap ν) (field : FieldObject ν) : GraphQLField where
  type := field.type.toType heap
  args := field.args.map fun type => { type := type.toType heap }

def TypeObject.toNamedType (heap : TypeHeap ν) : TypeObject ν → GraphQLNamedType
  | .scalar => .scalar
  | .object fields interfaces =>
      .object (fields.map (·.toField heap)) (interfaces.map heap.name)
  | .interface fields interfaces =>
      .interface (fields.map (·.toField heap)) (interfaces.map heap.name)
  | .union types => .union (types.map heap.name)
  | .enum => .enum
  | .inputObject fields => .inputObject (fields.map fun type => { type := type.toType heap })

def SchemaObject.toSchema (heap : TypeHeap ν) (kwargs : SchemaKwargs ν)
    (schema : SchemaObject ν) : GraphQLSchema where
  typeMap := schema.typeMap.map fun type => (heap.definition type).toNamedType heap
  queryType := kwargs.query.map heap.name
  mutationType := kwargs.mutation.map heap.name
  subscriptionType := kwargs.subscription.map heap.name

theorem TypeObject.interfaces_toNamedType (heap : TypeHeap ν) (definition : TypeObject ν) :
    (definition.toNamedType heap).interfaces = definition.interfaces.map heap.name := by
  cases definition <;> rfl

namespace MadeFrom

variable {heap : TypeHeap ν} {kwargs : SchemaKwargs ν} {types : RefSet ν}
  {schema : SchemaObject ν} {type iface abstractType : ν}

theorem getType_toSchema (h : MadeFrom heap kwargs types schema)
    (htype : Reachable heap kwargs type) :
    (schema.toSchema heap kwargs).getType (heap.name type) =
      some ((heap.definition type).toNamedType heap) := by
  rw [GraphQLSchema.getType, SchemaObject.toSchema, Dict.get_map,
    (h.get_typeMap _ _).mpr ⟨htype, rfl⟩]
  rfl

theorem name_mem_map_iff (h : MadeFrom heap kwargs types schema)
    (htype : Reachable heap kwargs type) {others : List ν}
    (hothers : ∀ other ∈ others, Reachable heap kwargs other) :
    heap.name type ∈ others.map heap.name ↔ type ∈ others := by
  constructor
  · intro hmem
    obtain ⟨other, hother, hname⟩ := List.mem_map.mp hmem
    exact h.uniqueNames other type (hothers other hother) htype hname ▸ hother
  · exact fun hmem => List.mem_map_of_mem hmem

variable [DecidableEq ν]

/-- The implementations by name are those that the constructor has stored. -/
theorem mem_getImplementations_toSchema (h : MadeFrom heap kwargs types schema)
    (hiface : Reachable heap kwargs iface) (hkind : isInterfaceType heap iface = true)
    (htype : Reachable heap kwargs type) :
    heap.name type ∈ (schema.toSchema heap kwargs).getImplementations (heap.name iface) ↔
      type ∈ (getImplementations heap schema iface).objects ∨
        type ∈ (getImplementations heap schema iface).interfaces := by
  rw [mem_getImplementations, h.mem_implementations_iff hiface hkind htype]
  simp only [h.getType_toSchema htype, Option.some.injEq, exists_eq_left',
    TypeObject.interfaces_toNamedType]
  exact h.name_mem_map_iff hiface fun other hother => htype.interface hother

/-- The subtypes by name are those that the schema has been asked for. -/
theorem isSubType_toSchema (h : MadeFrom heap kwargs types schema) {subTypeMap : SubTypeMap}
    (hasked : Asked heap kwargs schema subTypeMap)
    (habstract : Reachable heap kwargs abstractType)
    (hkind : (heap.definition abstractType).isAbstractType = true)
    (htype : Reachable heap kwargs type) :
    (schema.toSchema heap kwargs).isSubType (heap.name abstractType) (heap.name type) =
      (isSubType heap schema subTypeMap abstractType type).1 := by
  rw [Bool.eq_iff_iff, h.isSubType_iff hasked habstract hkind htype, GraphQLSchema.isSubType,
    h.getType_toSchema habstract]
  unfold DeclaresSubType
  cases hdefinition : heap.definition abstractType with
  | union members =>
      refine decide_eq_true_iff.trans (h.name_mem_map_iff htype fun member hmember => ?_)
      apply habstract.step
      rw [hdefinition]
      exact hmember
  | interface fields interfaces =>
      have hinterface : isInterfaceType heap abstractType = true := by
        rw [isInterfaceType, hdefinition]
        rfl
      refine decide_eq_true_iff.trans ?_
      rw [h.mem_getImplementations_toSchema habstract hinterface htype,
        h.mem_implementations_iff habstract hinterface htype]
  | scalar | object | «enum» | inputObject =>
      rw [hdefinition] at hkind
      cases hkind

end MadeFrom

end GraphqlCore.TypeObjects
