import GraphqlCore.Execution.ArgumentValues
import GraphqlCore.Type.Hierarchy
import GraphqlCore.Type.Scalars

/-!
# Implementations of interfaces

A field of an object type stands in for the field of an interface that the type implements:
`validate_type_implements_interface` compares the types of the fields and of their arguments,
and `get_argument_values` coerces the arguments by the field of the object type.
-/

namespace GraphqlCore

/-! ## What validation establishes -/

section Validation

variable {schema : GraphQLSchema}

theorem implementsInterface_of_validateInterfacesFrom {typeName : Text}
    {fields : Dict Text GraphQLField} {interfaces names pending : List Text}
    (h : validateInterfacesFrom schema typeName fields interfaces names pending = []) :
    ∀ iface ∈ pending, validateTypeImplementsInterface schema typeName fields iface = [] := by
  induction pending generalizing names with
  | nil => exact fun _ hmem => absurd hmem List.not_mem_nil
  | cons iface rest ih =>
      rw [validateInterfacesFrom] at h
      split at h
      · cases h
      · have hchecks := (List.append_eq_nil_iff.mp h).2
        split at hchecks
        · cases hchecks
        · simp only [List.append_eq_nil_iff] at hchecks
          obtain ⟨⟨-, himplements⟩, hrest⟩ := hchecks
          exact List.forall_mem_cons.mpr ⟨himplements, ih hrest⟩

/-- The field of an object type implements the field of an interface. -/
structure ImplementsField (schema : GraphQLSchema) (typeField ifaceField : GraphQLField) :
    Prop where
  subType : isTypeSubTypeOf schema typeField.type ifaceField.type = true
  args : ∀ argName ifaceArg, ifaceField.args.get argName = some ifaceArg →
    ∃ typeArg, typeField.args.get argName = some typeArg ∧ typeArg.type = ifaceArg.type
  notRequired : ∀ argName typeArg, typeField.args.get argName = some typeArg →
    ifaceField.args.get argName = none → isRequiredArgument typeArg.toInputDefinition = false

theorem implementsField_of_validate {typeName iface fieldName : Text}
    {fields : Dict Text GraphQLField} {ifaceField : GraphQLField}
    (h : validateTypeImplementsInterface schema typeName fields iface = [])
    (hfield : (schema.fieldsOf iface).get fieldName = some ifaceField) :
    ∃ typeField, fields.get fieldName = some typeField ∧
      ImplementsField schema typeField ifaceField := by
  have hchecks := List.flatMap_eq_nil_iff.mp h (fieldName, ifaceField)
    (Dict.mem_items_iff.mpr hfield)
  simp only at hchecks
  cases htypeField : fields.get fieldName with
  | none =>
      rw [htypeField] at hchecks
      cases hchecks
  | some typeField =>
      rw [htypeField] at hchecks
      simp only [List.append_eq_nil_iff] at hchecks
      obtain ⟨⟨⟨hsubType, hargs⟩, hextra⟩, -⟩ := hchecks
      refine ⟨typeField, rfl, reportUnless_eq_nil.mp hsubType, ?_, ?_⟩
      · intro argName ifaceArg hifaceArg
        have harg := List.flatMap_eq_nil_iff.mp hargs (argName, ifaceArg)
          (Dict.mem_items_iff.mpr hifaceArg)
        simp only [validateImplementedArg] at harg
        cases htypeArg : typeField.args.get argName with
        | none =>
            rw [htypeArg] at harg
            cases harg
        | some typeArg =>
            rw [htypeArg] at harg
            have hequal : isEqualType ifaceArg.type typeArg.type = true :=
              reportUnless_eq_nil.mp harg
            exact ⟨typeArg, rfl, (of_decide_eq_true hequal).symm⟩
      · intro argName typeArg htypeArg hnone
        have harg := List.flatMap_eq_nil_iff.mp hextra (argName, typeArg)
          (Dict.mem_items_iff.mpr htypeArg)
        have hcheck := reportUnless_eq_nil.mp harg
        simpa [hnone] using hcheck

/-- The arguments of the fields of an object type have input types. -/
theorem isInputType_of_validate {typeName fieldName argName : Text}
    {fields : Dict Text GraphQLField} {interfaces : List Text} {description : Option Text}
    {field : GraphQLField} {arg : GraphQLArgument} (h : validateSchema schema = [])
    (htype : schema.getType typeName = some (.object fields interfaces description))
    (hfield : fields.get fieldName = some field) (harg : field.args.get argName = some arg) :
    schema.isInputType arg.type = true := by
  have hfields : validateFields schema typeName fields = [] :=
    (List.append_eq_nil_iff.mp (validateType_eq_nil h htype)).1
  have hchecks := List.flatMap_eq_nil_iff.mp (List.append_eq_nil_iff.mp hfields).2
    (fieldName, field) (Dict.mem_items_iff.mpr hfield)
  have harg := List.flatMap_eq_nil_iff.mp (List.append_eq_nil_iff.mp hchecks).2
    (argName, arg) (Dict.mem_items_iff.mpr harg)
  simp only [validateInputDefinition, List.append_eq_nil_iff] at harg
  exact reportUnless_eq_nil.mp harg.1.2

theorem getType_of_mem_getPossibleTypes {iface object : Text}
    (hiface : schema.isInterfaceType iface)
    (hobject : object ∈ schema.getPossibleTypes iface) :
    ∃ fields interfaces description,
      schema.getType object = some (.object fields interfaces description) ∧
      iface ∈ interfaces := by
  obtain ⟨ifaceType, hifaceType, hkind⟩ := isInterfaceType_iff.mp hiface
  have himplementation : object ∈ (schema.getImplementations iface).filter fun name =>
      ((schema.getType name).map GraphQLNamedType.isObjectType).getD false := by
    unfold GraphQLSchema.getPossibleTypes at hobject
    rw [hifaceType] at hobject
    cases ifaceType with
    | interface fields interfaces => exact hobject
    | scalar | object | union | «enum» | inputObject => cases hkind
  obtain ⟨hmem, hobjectKind⟩ := List.mem_filter.mp himplementation
  obtain ⟨type, htype, hinterfaces⟩ := mem_getImplementations.mp hmem
  rw [htype] at hobjectKind
  cases type with
  | object fields interfaces description =>
      exact ⟨fields, interfaces, description, htype, hinterfaces⟩
  | scalar | interface | union | «enum» | inputObject => cases hobjectKind

theorem fieldsOf_object {object : Text} {fields : Dict Text GraphQLField}
    {interfaces : List Text} {description : Option Text}
    (htype : schema.getType object = some (.object fields interfaces description)) :
    schema.fieldsOf object = fields := by
  rw [GraphQLSchema.fieldsOf, htype]
  rfl

/-- On a valid schema the possible types of an interface have its fields. -/
theorem exists_implementsField {iface object fieldName : Text} {ifaceField : GraphQLField}
    (h : validateSchema schema = []) (hiface : schema.isInterfaceType iface)
    (hobject : object ∈ schema.getPossibleTypes iface)
    (hfield : (schema.fieldsOf iface).get fieldName = some ifaceField) :
    ∃ typeField, (schema.fieldsOf object).get fieldName = some typeField ∧
      ImplementsField schema typeField ifaceField ∧
      ∀ argName arg, typeField.args.get argName = some arg →
        schema.isInputType arg.type = true := by
  obtain ⟨fields, interfaces, description, htype, hinterfaces⟩ :=
    getType_of_mem_getPossibleTypes hiface hobject
  have hchecks := validateType_eq_nil h htype
  have hvalidated := implementsInterface_of_validateInterfacesFrom
    (List.append_eq_nil_iff.mp hchecks).2 iface hinterfaces
  rw [fieldsOf_object htype]
  obtain ⟨typeField, htypeField, himplements⟩ := implementsField_of_validate hvalidated hfield
  exact ⟨typeField, htypeField, himplements,
    fun argName arg harg => isInputType_of_validate h htype htypeField harg⟩

end Validation

namespace Execution

open Language

/-! ## Arguments of fields -/

section Arguments

variable (types : InputTypes) (depth : ℕ) (arguments : List (Text × ValueNode))
  (variableValues : Option VariableValues)
  (fragmentVariableValues : Option FragmentVariableValues)

/-- The function `get_argument_values` for the arguments of a field. -/
def getFieldArgumentValues (args : Dict Text GraphQLArgument) :
    Except ArgumentError (Dict Text Value) :=
  args.items.foldlM (fun coercedValues arg =>
    coerceArgumentValue types depth variableValues fragmentVariableValues coercedValues arg.1
      arg.2.toInputDefinition (argumentNamed arguments arg.1)) Dict.empty

/-- The default value of an argument can be used. -/
def DefaultCoerces (argDef : InputDefinition) : Prop :=
  ∃ value, GraphqlCore.coerceDefaultValue types (depth + 1) argDef = .ok value

/-- The argument is given, and is no variable without a value. -/
def IsGiven (argName : Text) : Prop :=
  ∃ valueNode, argumentNamed arguments argName = some valueNode ∧
    isMissingVariable valueNode variableValues fragmentVariableValues = false

/-- The argument is coerced: the value that is given, or else the default value. -/
def ArgumentCoerces (argDef : InputDefinition) : Option ValueNode → Prop
  | none => isRequiredArgument argDef = false ∧ DefaultCoerces types depth argDef
  | some valueNode =>
      if isMissingVariable valueNode variableValues fragmentVariableValues &&
          !isRequiredArgument argDef then
        DefaultCoerces types depth argDef
      else
        ∃ value, GraphqlCore.coerceInputLiteral types
          (GraphqlCore.coerceDefaultValue types depth) variableValues fragmentVariableValues
          valueNode argDef.type = .ok value

variable {types depth arguments variableValues fragmentVariableValues}

theorem exists_maybeUseDefaultArgument_iff {coercedValues : Dict Text Value} {name : Text}
    {argDef : InputDefinition} :
    (∃ d, maybeUseDefaultArgument types depth coercedValues name argDef = .ok d) ↔
      DefaultCoerces types depth argDef := by
  constructor
  · rintro ⟨d, hd⟩
    obtain ⟨value, hvalue, -⟩ := maybeUseDefaultArgument_eq_ok.mp hd
    exact ⟨value, hvalue⟩
  · rintro ⟨value, hvalue⟩
    exact ⟨_, maybeUseDefaultArgument_eq_ok.mpr ⟨value, hvalue, rfl⟩⟩

/-- Whether an argument is coerced does not depend on the arguments before it. -/
theorem exists_coerceArgumentValue_iff {coercedValues : Dict Text Value} {argName : Text}
    {argDef : InputDefinition} {argumentNode : Option ValueNode} :
    (∃ d, coerceArgumentValue types depth variableValues fragmentVariableValues coercedValues
      argName argDef argumentNode = .ok d) ↔
      ArgumentCoerces types depth variableValues fragmentVariableValues argDef argumentNode := by
  unfold coerceArgumentValue ArgumentCoerces
  cases argumentNode with
  | none =>
      simp only
      cases hrequired : isRequiredArgument argDef with
      | true => simp
      | false =>
          rw [if_neg Bool.false_ne_true, exists_maybeUseDefaultArgument_iff]
          exact (and_iff_right rfl).symm
  | some valueNode =>
      simp only
      split
      · exact exists_maybeUseDefaultArgument_iff
      · cases GraphqlCore.coerceInputLiteral types
          (GraphqlCore.coerceDefaultValue types depth) variableValues fragmentVariableValues
          valueNode argDef.type with
        | ok value => simp
        | error stop =>
            cases stop with
            | undefined =>
                simp only
                split <;> simp
            | invalidDefault | notLeafType | tooDeep => simp

theorem exists_foldlM_iff {α β ε : Type} {f : β → α → Except ε β} {p : α → Prop}
    {items : List α} (h : ∀ b, ∀ item ∈ items, (∃ b', f b item = .ok b') ↔ p item) (b : β) :
    (∃ b', items.foldlM f b = .ok b') ↔ ∀ item ∈ items, p item := by
  induction items generalizing b with
  | nil => exact iff_of_true ⟨b, rfl⟩ fun _ hmem => absurd hmem List.not_mem_nil
  | cons item rest ih =>
      have hrest := ih fun b item hmem => h b item (List.mem_cons_of_mem _ hmem)
      rw [List.foldlM_cons, List.forall_mem_cons, ← h b item List.mem_cons_self]
      constructor
      · rintro ⟨b', hb'⟩
        obtain ⟨next, hnext, htail⟩ := bind_eq_ok.mp hb'
        exact ⟨⟨next, hnext⟩, (hrest next).mp ⟨b', htail⟩⟩
      · rintro ⟨⟨next, hnext⟩, hall⟩
        obtain ⟨b', hb'⟩ := (hrest next).mpr hall
        exact ⟨b', bind_eq_ok.mpr ⟨next, hnext, hb'⟩⟩

/-- The arguments of a field are coerced if each of them is. -/
theorem exists_getFieldArgumentValues_iff {args : Dict Text GraphQLArgument} :
    (∃ values, getFieldArgumentValues types depth arguments variableValues
      fragmentVariableValues args = .ok values) ↔
      ∀ argName arg, args.get argName = some arg →
        ArgumentCoerces types depth variableValues fragmentVariableValues
          arg.toInputDefinition (argumentNamed arguments argName) := by
  have hfold := exists_foldlM_iff (f := fun coercedValues arg =>
      coerceArgumentValue types depth variableValues fragmentVariableValues coercedValues arg.1
        arg.2.toInputDefinition (argumentNamed arguments arg.1))
    (fun _ (arg : Text × GraphQLArgument) (_ : arg ∈ args.items) =>
      exists_coerceArgumentValue_iff) Dict.empty
  rw [getFieldArgumentValues, hfold, Prod.forall]
  simp only [Dict.mem_items_iff]

/-- An argument of the same type stands in for an argument of an interface. -/
theorem ArgumentCoerces.standsIn {argDef ifaceArg : InputDefinition}
    {argumentNode : Option ValueNode}
    (h : ArgumentCoerces types depth variableValues fragmentVariableValues ifaceArg argumentNode)
    (htype : argDef.type = ifaceArg.type)
    (hrequired : isRequiredArgument argDef = true → isRequiredArgument ifaceArg = false →
      ∃ valueNode, argumentNode = some valueNode ∧
        isMissingVariable valueNode variableValues fragmentVariableValues = false)
    (hdefault : DefaultCoerces types depth argDef) :
    ArgumentCoerces types depth variableValues fragmentVariableValues argDef argumentNode := by
  unfold ArgumentCoerces at h ⊢
  cases argumentNode with
  | none =>
      refine ⟨?_, hdefault⟩
      by_contra hneeded
      rw [Bool.not_eq_false] at hneeded
      obtain ⟨valueNode, hnone, -⟩ := hrequired hneeded h.1
      cases hnone
  | some valueNode =>
      simp only at h ⊢
      cases hmissing : isMissingVariable valueNode variableValues fragmentVariableValues with
      | false =>
          rw [hmissing] at h
          rw [htype]
          exact h
      | true =>
          rw [hmissing] at h
          cases hneeded : isRequiredArgument argDef with
          | false => exact hdefault
          | true =>
              cases hiface : isRequiredArgument ifaceArg with
              | true =>
                  rw [hiface] at h
                  rw [htype]
                  exact h
              | false =>
                  obtain ⟨valueNode', hsome, hgiven⟩ := hrequired hneeded hiface
                  obtain rfl := Option.some.inj hsome
                  cases hmissing.symm.trans hgiven

end Arguments

/-! ## Default values -/

section Defaults

variable (types : InputTypes)

/-- The errors of the default value of an argument. -/
def validateDefaultValue (argDef : InputDefinition) : List InputError :=
  match argDef.default with
  | none => []
  | some default => validateDefaultInput types default argDef.type

/-- The default value contains a OneOf object whose entry is coerced to `None`. -/
def LosesDefaultEntry (type : GraphQLType) : GraphQLDefaultInput → Prop
  | .literal literal => LosesLiteralEntry types none none literal type
  | .value value => LosesEntry types value type

/-- A literal is constant and its objects have unique fields. -/
def WellFormedDefault : GraphQLDefaultInput → Prop
  | .literal literal => IsConstLiteral literal ∧ UniqueFieldNames literal
  | .value _ => True

/-- The default value of an argument, if there is one, passes its check. -/
structure ValidDefault (argDef : InputDefinition) : Prop where
  validated : validateDefaultValue types argDef = []
  wellFormed : ∀ default, argDef.default = some default → WellFormedDefault default
  keepsEntries : ∀ default, argDef.default = some default →
    ¬ LosesDefaultEntry types argDef.type default

variable {types} {depth : ℕ}

/-- Default values that pass the check are coerced. -/
theorem ValidDefault.coerces {argDef : InputDefinition} (h : ValidDefault types argDef)
    (hvalid : ValidInputTypes types depth) (hinput : types.schema.isInputType argDef.type) :
    DefaultCoerces types depth argDef := by
  unfold DefaultCoerces GraphqlCore.coerceDefaultValue
  have hvalidated := h.validated
  unfold validateDefaultValue at hvalidated
  cases hdefault : argDef.default with
  | none => exact ⟨_, rfl⟩
  | some default =>
      have hkeeps := h.keepsEntries default hdefault
      rw [hdefault] at hvalidated
      cases default with
      | value value =>
          have hconforms : Conforms types value argDef.type :=
            (validateInputValue_eq_nil_iff hvalid.hasInputFields value argDef.type hinput
              []).mp hvalidated
          obtain ⟨coerced, hcoerced⟩ := (coerceInputValue_settles hvalid value argDef.type
            hinput).exists_ok ⟨hconforms, hkeeps⟩
          simp only [hcoerced]
          exact ⟨_, rfl⟩
      | literal literal =>
          obtain ⟨hconst, hunique⟩ := h.wellFormed _ hdefault
          have hconforms : LiteralConforms types none none literal argDef.type :=
            (validateInputLiteral_eq_nil_iff_of_validated hvalid.hasInputFields literal
              argDef.type (.inr hconst) hinput hunique []).mp hvalidated
          have hmissing : isMissingVariable literal none none = false := by
            apply isMissingVariable_of_not
            rintro node rfl
            exact Bool.noConfusion (VariablesValidated.variableNode (.inr hconst) :
              isStatic none none = false)
          obtain ⟨coerced, hcoerced⟩ := (coerceInputLiteral_settles hvalid literal
            argDef.type hinput).exists_ok ⟨⟨hconforms, hkeeps⟩, hmissing⟩
          simp only [hcoerced]
          exact ⟨_, rfl⟩

end Defaults

/-! ## Main result -/

/-- The fields of the possible types of an interface stand in for its fields, for nodes that
give only arguments of the interface and all those that the object type requires. -/
theorem implementations_standIn (types : InputTypes) (depth : ℕ)
    (hschema : validateSchema types.schema = []) (hvalid : ValidInputTypes types depth)
    (iface object fieldName : Text)
    (ifaceField : GraphQLField) (hiface : types.schema.isInterfaceType iface)
    (hobject : object ∈ types.schema.getPossibleTypes iface)
    (hfield : (types.schema.fieldsOf iface).get fieldName = some ifaceField) :
    ∃ typeField, (types.schema.fieldsOf object).get fieldName = some typeField ∧
      isTypeSubTypeOf types.schema typeField.type ifaceField.type = true ∧
      ∀ arguments variableValues fragmentVariableValues,
        (∀ arg ∈ arguments, (ifaceField.args.get arg.1).isSome) →
        (∀ argName typeArg ifaceArg, typeField.args.get argName = some typeArg →
          ifaceField.args.get argName = some ifaceArg →
          isRequiredArgument typeArg.toInputDefinition = true →
          isRequiredArgument ifaceArg.toInputDefinition = false →
            IsGiven arguments variableValues fragmentVariableValues argName) →
        (∀ argName typeArg, typeField.args.get argName = some typeArg →
          ValidDefault types typeArg.toInputDefinition) →
        (∃ values, getFieldArgumentValues types depth arguments variableValues
          fragmentVariableValues ifaceField.args = .ok values) →
        ∃ values, getFieldArgumentValues types depth arguments variableValues
          fragmentVariableValues typeField.args = .ok values := by
  obtain ⟨typeField, htypeField, himplements, hinput⟩ :=
    exists_implementsField hschema hiface hobject hfield
  refine ⟨typeField, htypeField, himplements.subType, ?_⟩
  intro arguments variableValues fragmentVariableValues hknown hgiven hdefaults hvalues
  rw [exists_getFieldArgumentValues_iff] at hvalues ⊢
  intro argName typeArg htypeArg
  have hdefault := (hdefaults argName typeArg htypeArg).coerces hvalid
    (hinput argName typeArg htypeArg)
  cases hifaceArg : ifaceField.args.get argName with
  | some ifaceArg =>
      obtain ⟨typeArg', htypeArg', htype⟩ := himplements.args argName ifaceArg hifaceArg
      obtain rfl := Option.some.inj (htypeArg.symm.trans htypeArg')
      exact (hvalues argName ifaceArg hifaceArg).standsIn htype
        (hgiven argName typeArg ifaceArg htypeArg hifaceArg) hdefault
  | none =>
      have hnotGiven : argumentNamed arguments argName = none := by
        refine Dict.find_eq_none fun hmem => ?_
        obtain ⟨arg, harg, rfl⟩ := List.mem_map.mp hmem
        have hsome := hknown arg (List.mem_reverse.mp harg)
        rw [hifaceArg] at hsome
        cases hsome
      rw [hnotGiven]
      exact ⟨himplements.notRequired argName typeArg htypeArg hifaceArg, hdefault⟩

/-! ## Defaults and arguments that an object type does not share -/

/-- The argument with the type `Boolean!` and, if wanted, the default value `true`. -/
def flag (argName : Text) (default : Option GraphQLDefaultInput) : Dict Text GraphQLArgument :=
  Dict.empty.set argName { type := .nonNull boolean, default := default }

def flagDefault : Option GraphQLDefaultInput := some (.value (.bool true))

def ifaceFlags : Dict Text GraphQLField :=
  (Dict.empty.set (str "shown")
    { type := boolean, args := flag (str "all") flagDefault }).set (str "open")
    { type := boolean }

def queryFlags : Dict Text GraphQLField :=
  (Dict.empty.set (str "shown")
    { type := boolean, args := flag (str "all") none }).set (str "open")
    { type := boolean, args := flag (str "now") flagDefault }

/-- `interface Flags { shown(all: Boolean! = true): Boolean  open: Boolean }` and
`type Query implements Flags` with `shown(all: Boolean!)` and `open(now: Boolean! = true)`. -/
def flagTypes : InputTypes where
  schema :=
    { typeMap := ((Dict.empty.set (str "Boolean") graphQLBoolean).set (str "Flags")
        (.interface ifaceFlags [])).set (str "Query") (.object queryFlags [str "Flags"])
      queryType := some (str "Query") }
  scalars _ := booleanFunctions
  valueToLiteral _ _ := .error (str "Cannot convert value to AST")

theorem flagTypes_valid : validateSchema flagTypes.schema = [] := by decide +kernel

theorem flagTypes_boolean : flagTypes.schema.getType (str "Boolean") = some graphQLBoolean :=
  rfl

theorem true_coerces {coerceDefault : DefaultCoercion} :
    GraphqlCore.coerceInputValue flagTypes coerceDefault (.bool true) (.nonNull boolean) =
      .ok (.bool true) := by
  rw [GraphqlCore.coerceInputValue]
  · rw [boolean, coerceInputValue_leaf (by simp) (by simp [flagTypes_boolean, graphQLBoolean])]
    rfl
  · simp

theorem falseLiteral_coerces {coerceDefault : DefaultCoercion} :
    GraphqlCore.coerceInputLiteral flagTypes coerceDefault none none (.boolean false none)
      (.nonNull boolean) = .ok (.bool false) := by
  rw [GraphqlCore.coerceInputLiteral]
  · rw [boolean, coerceInputLiteral_leaf ⟨by simp, by simp⟩
      (by simp [flagTypes_boolean, graphQLBoolean]), leafInputLiteral, flagTypes_boolean]
    simp only [replaceVariables]
    rfl
  · simp
  · simp

theorem flag_coerces_iff {argName : Text} {default : Option GraphQLDefaultInput}
    {arguments : List (Text × ValueNode)} :
    (∃ values, getFieldArgumentValues flagTypes 1 arguments none none
      (flag argName default) = .ok values) ↔
      ArgumentCoerces flagTypes 1 none none { type := .nonNull boolean, default := default }
        (argumentNamed arguments argName) := by
  rw [exists_getFieldArgumentValues_iff]
  constructor
  · intro h
    exact h argName _ (Dict.get_set_self _ _ _)
  · intro h argName' arg harg
    have hmem := Dict.mem_items_iff.mpr harg
    obtain ⟨rfl, rfl⟩ := Prod.mk.inj (List.mem_singleton.mp hmem)
    exact h

theorem shownOfQuery_coerces :
    ∃ values, getFieldArgumentValues flagTypes 1 [(str "all", .boolean false none)] none none
      (flag (str "all") none) = .ok values := by
  have hiface : ∃ values, getFieldArgumentValues flagTypes 1
      [(str "all", .boolean false none)] none none (flag (str "all") flagDefault) =
        .ok values := flag_coerces_iff.mpr ⟨_, falseLiteral_coerces⟩
  obtain ⟨typeField, htypeField, -, hstands⟩ := implementations_standIn flagTypes 1
    flagTypes_valid (validInputTypes_of_check (by decide)) (str "Flags") (str "Query")
    (str "shown") _ (by decide) (by decide) rfl
  obtain rfl := Option.some.inj htypeField
  apply hstands _ _ _ ?_ ?_ ?_ hiface
  · intro arg harg
    obtain rfl := List.mem_singleton.mp harg
    rfl
  · intro argName typeArg ifaceArg htypeArg _ _ _
    obtain ⟨rfl, -⟩ := Prod.mk.inj (List.mem_singleton.mp (Dict.mem_items_iff.mpr htypeArg))
    exact ⟨_, rfl, rfl⟩
  · intro argName typeArg htypeArg
    obtain ⟨-, rfl⟩ := Prod.mk.inj (List.mem_singleton.mp (Dict.mem_items_iff.mpr htypeArg))
    exact ⟨rfl, fun _ h => (by cases h), fun _ h => (by cases h)⟩

/-- Without arguments the field `shown` of the interface is resolved and that of the query type
is not; with `now: null` so is the field `open`, since the interface does not know `now`. -/
theorem flags_not_standIn :
    validateSchema flagTypes.schema = [] ∧ flagTypes.schema.isInterfaceType (str "Flags") ∧
      str "Query" ∈ flagTypes.schema.getPossibleTypes (str "Flags") ∧
      (∃ ifaceField typeField,
        (flagTypes.schema.fieldsOf (str "Flags")).get (str "shown") = some ifaceField ∧
        (flagTypes.schema.fieldsOf (str "Query")).get (str "shown") = some typeField ∧
        (∃ values, getFieldArgumentValues flagTypes 1 [] none none ifaceField.args =
          .ok values) ∧
        ¬ ∃ values, getFieldArgumentValues flagTypes 1 [] none none typeField.args =
          .ok values) ∧
      ∃ ifaceField typeField,
        (flagTypes.schema.fieldsOf (str "Flags")).get (str "open") = some ifaceField ∧
        (flagTypes.schema.fieldsOf (str "Query")).get (str "open") = some typeField ∧
        (∃ values, getFieldArgumentValues flagTypes 1 [(str "now", .null none)] none none
          ifaceField.args = .ok values) ∧
        ¬ ∃ values, getFieldArgumentValues flagTypes 1 [(str "now", .null none)] none none
          typeField.args = .ok values := by
  refine ⟨flagTypes_valid, by decide, by decide, ⟨_, _, rfl, rfl, ?_, ?_⟩,
    _, _, rfl, rfl, ?_, ?_⟩
  · refine flag_coerces_iff.mpr ⟨rfl, some (.bool true), ?_⟩
    simp only [GraphqlCore.coerceDefaultValue, flagDefault, true_coerces]
  · intro h
    have hrequired := (flag_coerces_iff.mp h).1
    cases hrequired
  · exact ⟨_, rfl⟩
  · intro h
    have hcoerces := flag_coerces_iff.mp h
    obtain ⟨value, hvalue⟩ := hcoerces
    rw [GraphqlCore.coerceInputLiteral] at hvalue
    cases hvalue

end Execution

end GraphqlCore
