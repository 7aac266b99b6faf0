import GraphqlCore.Type.Validate

/-!
# The hierarchy of a valid schema

What `validate_interfaces` and `validate_union_members` establish: the interfaces
of a type are closed under the interfaces of these, and unions have object types
as members only.  Subtyping on a valid schema is therefore a preorder.
-/

namespace GraphqlCore

/-- A message is reported where a check fails. -/
theorem reportUnless_eq_nil {check : Bool} {message : Text} :
    reportUnless check message = [] ↔ check := by
  unfold reportUnless
  split <;> simp_all

/-- The interfaces and members that a schema's types name are right. -/
structure ClosedHierarchy (schema : GraphQLSchema) : Prop where
  isInterface {name iface : Text} {type : GraphQLNamedType}
    (htype : schema.getType name = some type) (hiface : iface ∈ type.interfaces) :
    schema.isInterfaceType iface
  implementsAncestors {name iface transitive : Text} {type : GraphQLNamedType}
    (htype : schema.getType name = some type) (hiface : iface ∈ type.interfaces)
    (htransitive : transitive ∈ schema.interfacesOf iface) :
    transitive ∈ type.interfaces
  isObject {name member : Text} {types : List Text} {description : Option Text}
    (htype : schema.getType name = some (.union types description))
    (hmember : member ∈ types) : schema.isObjectType member

/-! ## What validation establishes -/

section Validation

variable {schema : GraphQLSchema}

theorem validateTypeImplementsAncestors_eq_nil {typeName iface : Text}
    {interfaces : List Text}
    (h : validateTypeImplementsAncestors schema typeName interfaces iface = []) :
    ∀ transitive ∈ schema.interfacesOf iface, transitive ∈ interfaces := by
  intro transitive htransitive
  have hreport := List.flatMap_eq_nil_iff.mp h transitive htransitive
  simpa using reportUnless_eq_nil.mp hreport

theorem validateInterfacesFrom_eq_nil {typeName : Text}
    {fields : Dict Text GraphQLField} {interfaces names pending : List Text}
    (h : validateInterfacesFrom schema typeName fields interfaces names pending =
      []) :
    ∀ iface ∈ pending, schema.isInterfaceType iface ∧
      ∀ transitive ∈ schema.interfacesOf iface, transitive ∈ interfaces := by
  induction pending generalizing names with
  | nil => simp
  | cons iface rest ih =>
      rw [validateInterfacesFrom] at h
      split at h
      · cases h
      · rename_i hinterface
        rw [Bool.not_eq_true', Bool.not_eq_false] at hinterface
        rw [List.append_eq_nil_iff] at h
        replace h := h.2
        split at h
        · cases h
        · simp only [List.append_eq_nil_iff] at h
          obtain ⟨⟨hancestors, -⟩, hrest⟩ := h
          intro other hother
          rcases List.mem_cons.mp hother with rfl | hother
          · exact ⟨hinterface, validateTypeImplementsAncestors_eq_nil hancestors⟩
          · exact ih hrest other hother

theorem validateMembersFrom_eq_nil {union : Text} {names pending : List Text}
    (h : validateMembersFrom schema union names pending = []) :
    ∀ member ∈ pending, schema.isObjectType member := by
  induction pending generalizing names with
  | nil => simp
  | cons member rest ih =>
      rw [validateMembersFrom] at h
      split at h
      · rename_i hobject
        split at h
        · cases h
        · intro other hother
          rcases List.mem_cons.mp hother with rfl | hother
          · exact hobject
          · exact ih h other hother
      · cases h

theorem validateType_eq_nil {name : Text} {type : GraphQLNamedType}
    (h : validateSchema schema = []) (htype : schema.getType name = some type) :
    validateType schema name type = [] := by
  have htypes : validateTypes schema = [] := (List.append_eq_nil_iff.mp h).2
  have hentry := List.flatMap_eq_nil_iff.mp htypes (name, type)
    (Dict.mem_items_iff.mpr htype)
  exact (List.append_eq_nil_iff.mp hentry).2

/-- The interfaces of a validated type have been checked. -/
theorem checkedInterfaces {name : Text} {type : GraphQLNamedType}
    (h : validateSchema schema = []) (htype : schema.getType name = some type) :
    ∀ iface ∈ type.interfaces, schema.isInterfaceType iface ∧
      ∀ transitive ∈ schema.interfacesOf iface, transitive ∈ type.interfaces := by
  have hchecks := validateType_eq_nil h htype
  cases type with
  | object fields interfaces =>
      exact validateInterfacesFrom_eq_nil (List.append_eq_nil_iff.mp hchecks).2
  | interface fields interfaces =>
      exact validateInterfacesFrom_eq_nil (List.append_eq_nil_iff.mp hchecks).2
  | scalar => simp [GraphQLNamedType.interfaces]
  | union types => simp [GraphQLNamedType.interfaces]
  | enum values => simp [GraphQLNamedType.interfaces]
  | inputObject fields isOneOf => simp [GraphQLNamedType.interfaces]

theorem closedHierarchy (h : validateSchema schema = []) :
    ClosedHierarchy schema where
  isInterface htype hiface := (checkedInterfaces h htype _ hiface).1
  implementsAncestors htype hiface htransitive :=
    (checkedInterfaces h htype _ hiface).2 _ htransitive
  isObject htype hmember := by
    have hchecks := validateType_eq_nil h htype
    exact validateMembersFrom_eq_nil (List.append_eq_nil_iff.mp hchecks).2 _ hmember

end Validation

/-! ## Subtypes of named types -/

section NamedTypes

variable {schema : GraphQLSchema}

theorem mem_getImplementations {iface name : Text} :
    name ∈ schema.getImplementations iface ↔
      ∃ type, schema.getType name = some type ∧ iface ∈ type.interfaces := by
  simp [GraphQLSchema.getImplementations, GraphQLSchema.getType,
    ← Dict.mem_items_iff]

theorem isInterfaceType_iff {name : Text} :
    schema.isInterfaceType name ↔
      ∃ type, schema.getType name = some type ∧ type.isInterfaceType := by
  unfold GraphQLSchema.isInterfaceType GraphQLSchema.named
  rw [GraphQLType.getNamedType]
  cases schema.getType name <;> simp

theorem isObjectType_iff {name : Text} :
    schema.isObjectType name ↔
      ∃ type, schema.getType name = some type ∧ type.isObjectType := by
  unfold GraphQLSchema.isObjectType GraphQLSchema.named
  rw [GraphQLType.getNamedType]
  cases schema.getType name <;> simp

/-- The types below an interface are those that name it. -/
theorem isSubType_interface {iface name : Text}
    (hiface : schema.isInterfaceType iface) :
    schema.isSubType iface name ↔
      ∃ type, schema.getType name = some type ∧ iface ∈ type.interfaces := by
  obtain ⟨type, htype, hkind⟩ := isInterfaceType_iff.mp hiface
  cases type with
  | interface fields interfaces =>
      rw [GraphQLSchema.isSubType, htype, decide_eq_true_iff]
      exact mem_getImplementations
  | scalar => cases hkind
  | object fields interfaces => cases hkind
  | union types => cases hkind
  | enum values => cases hkind
  | inputObject fields isOneOf => cases hkind

/-- A subtype of an interface names it, unless it is the interface itself. -/
theorem NamedSubType.names {sub iface : Text} (h : NamedSubType schema sub iface)
    (hne : sub ≠ iface) (hiface : schema.isInterfaceType iface) :
    ∃ type, schema.getType sub = some type ∧ iface ∈ type.interfaces := by
  rcases h with heq | ⟨_, _, _, _, _, _, hsub⟩
  · exact absurd heq hne
  · exact (isSubType_interface hiface).mp hsub

/-- A type that has a different subtype and a different supertype is an
interface. -/
theorem isInterfaceType_between {a b c : Text} (hab : NamedSubType schema a b)
    (hbc : NamedSubType schema b c) (hneab : a ≠ b) (hnebc : b ≠ c) :
    schema.isInterfaceType b := by
  rcases hab with heq | ⟨bType, _, hb, _, habstract, _, _⟩
  · exact absurd heq hneab
  rcases hbc with heq | ⟨_, bType', _, hb', _, hkind, _⟩
  · exact absurd heq hnebc
  rw [hb] at hb'
  cases hb'
  rw [isInterfaceType_iff]
  cases bType <;>
    simp_all [GraphQLNamedType.isAbstractType, GraphQLNamedType.isInterfaceType,
      GraphQLNamedType.isObjectType]

/-- A different supertype of an interface is an interface: unions have object
types as members only. -/
theorem ClosedHierarchy.isInterfaceType_above {b c : Text}
    (hclosed : ClosedHierarchy schema) (hbc : NamedSubType schema b c)
    (hne : b ≠ c) (hb : schema.isInterfaceType b) : schema.isInterfaceType c := by
  rcases hbc with heq | ⟨cType, _, hc, _, habstract, _, hsub⟩
  · exact absurd heq hne
  cases cType with
  | interface fields interfaces => exact isInterfaceType_iff.mpr ⟨_, hc, rfl⟩
  | union types =>
      have hmember : b ∈ types := by
        simpa [GraphQLSchema.isSubType, hc] using hsub
      obtain ⟨type, htype, hkind⟩ := isInterfaceType_iff.mp hb
      obtain ⟨type', htype', hkind'⟩ :=
        isObjectType_iff.mp (hclosed.isObject hc hmember)
      rw [htype] at htype'
      cases htype'
      cases type <;>
        simp_all [GraphQLNamedType.isInterfaceType, GraphQLNamedType.isObjectType]
  | scalar => cases habstract
  | object fields interfaces => cases habstract
  | enum values => cases habstract
  | inputObject fields isOneOf => cases habstract

theorem ClosedHierarchy.namedSubType_trans (hclosed : ClosedHierarchy schema)
    {a b c : Text} (hab : NamedSubType schema a b) (hbc : NamedSubType schema b c) :
    NamedSubType schema a c := by
  by_cases hneab : a = b
  · exact hneab ▸ hbc
  by_cases hnebc : b = c
  · exact hnebc ▸ hab
  have hb := isInterfaceType_between hab hbc hneab hnebc
  have hc := hclosed.isInterfaceType_above hbc hnebc hb
  obtain ⟨aType, ha, hba⟩ := hab.names hneab hb
  obtain ⟨bType, hbType, hcb⟩ := hbc.names hnebc hc
  have hca : c ∈ aType.interfaces := by
    apply hclosed.implementsAncestors ha hba
    simpa [GraphQLSchema.interfacesOf, hbType] using hcb
  obtain ⟨cType, hcType, hkind⟩ := isInterfaceType_iff.mp hc
  refine Or.inr ⟨cType, aType, hcType, ha, ?_, ?_,
    (isSubType_interface hc).mpr ⟨aType, ha, hca⟩⟩
  · cases cType <;>
      simp_all [GraphQLNamedType.isInterfaceType, GraphQLNamedType.isAbstractType]
  · cases aType <;>
      simp_all [GraphQLNamedType.interfaces, GraphQLNamedType.isInterfaceType,
        GraphQLNamedType.isObjectType]

end NamedTypes

/-! ## Subtyping -/

/-- On a schema that validation accepts, subtyping is a preorder. -/
theorem validSchema_subtyping (schema : GraphQLSchema)
    (hvalid : validateSchema schema = []) :
    (∀ a, isTypeSubTypeOf schema a a) ∧
      ∀ a b c, isTypeSubTypeOf schema a b → isTypeSubTypeOf schema b c →
        isTypeSubTypeOf schema a c := by
  have hclosed := closedHierarchy hvalid
  constructor
  · intro a
    exact (isTypeSubTypeOf_iff schema a a).mpr (subType_refl schema a)
  · intro a b c hab hbc
    rw [isTypeSubTypeOf_iff] at hab hbc ⊢
    exact hab.trans hclosed.namedSubType_trans hbc

/-- `type Query implements Node & Entity { id: Int }`, where `Entity` is an
interface that implements `Node`. -/
def nodeSchema : GraphQLSchema :=
  let fields := Dict.empty.set (str "id") { type := .named (str "Int") }
  { typeMap := (((Dict.empty.set (str "Int") .scalar).set (str "Node")
      (.interface fields [])).set (str "Entity")
      (.interface fields [str "Node"])).set (str "Query")
      (.object fields [str "Node", str "Entity"])
    queryType := some (str "Query") }

theorem nodeSchema_subtyping :
    validateSchema nodeSchema = [] ∧
      isTypeSubTypeOf nodeSchema (.nonNull (.named (str "Query")))
        (.named (str "Node")) := by
  have hvalid : validateSchema nodeSchema = [] := by decide +kernel
  refine ⟨hvalid, (validSchema_subtyping nodeSchema hvalid).2 _
    (.named (str "Entity")) _ ?_ ?_⟩ <;> decide +kernel

end GraphqlCore
