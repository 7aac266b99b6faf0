import GraphqlCore.Utilities.InputAgreement

/-!
# Coercing and validating literals

The counterpart for literals: `LiteralConforms` describes the literals that
`validate_input_literal` accepts for given values of the variables, and apart from
the entries of OneOf objects `coerce_input_literal` accepts them too, unless the
literal itself is a variable without a value.
-/

namespace GraphqlCore

open Language Execution

/-- The literal is neither a variable nor null. -/
structure IsPlain (valueNode : ValueNode) : Prop where
  ne_variable : ∀ node, valueNode ≠ .variable node
  ne_null : ∀ loc, valueNode ≠ .null loc

/-- Object fields have different names, at any depth. -/
inductive UniqueFieldNames : ValueNode → Prop
  | list {values : List ValueNode} {loc : Option Location}
      (h : ∀ valueNode ∈ values, UniqueFieldNames valueNode) :
      UniqueFieldNames (.list values loc)
  | object {fields : List ObjectFieldNode} {loc : Option Location}
      (hnames : (fields.map fun field => field.name.value).Nodup)
      (h : ∀ field ∈ fields, UniqueFieldNames field.value) :
      UniqueFieldNames (.object fields loc)
  | other {valueNode : ValueNode} (hlist : ∀ values loc, valueNode ≠ .list values loc)
      (hobject : ∀ fields loc, valueNode ≠ .object fields loc) :
      UniqueFieldNames valueNode

/-- The literal contains no variable. -/
inductive IsConstLiteral : ValueNode → Prop
  | list {values : List ValueNode} {loc : Option Location}
      (h : ∀ valueNode ∈ values, IsConstLiteral valueNode) :
      IsConstLiteral (.list values loc)
  | object {fields : List ObjectFieldNode} {loc : Option Location}
      (h : ∀ field ∈ fields, IsConstLiteral field.value) :
      IsConstLiteral (.object fields loc)
  | other {valueNode : ValueNode} (hvariable : ∀ node, valueNode ≠ .variable node)
      (hlist : ∀ values loc, valueNode ≠ .list values loc)
      (hobject : ∀ fields loc, valueNode ≠ .object fields loc) :
      IsConstLiteral valueNode

/-! ## Literals of a type -/

/-- A property that follows for a literal of a type from the positions next to it
holds everywhere. -/
theorem inputLiteral_induction (types : InputTypes)
    {motive : ValueNode → GraphQLType → Prop}
    (variableNode : ∀ node type, motive (.variable node) type)
    (nonNullNull : ∀ loc ofType, motive (.null loc) (.nonNull ofType))
    (nonNull : ∀ valueNode ofType, IsPlain valueNode → motive valueNode ofType →
      motive valueNode (.nonNull ofType))
    (listNull : ∀ loc itemType, motive (.null loc) (.list itemType))
    (list : ∀ values loc itemType, (∀ itemNode ∈ values, motive itemNode itemType) →
      motive (.list values loc) (.list itemType))
    (single : ∀ valueNode itemType, IsPlain valueNode →
      (∀ values loc, valueNode ≠ .list values loc) → motive valueNode itemType →
      motive valueNode (.list itemType))
    (namedNull : ∀ loc name, motive (.null loc) (.named name))
    (object : ∀ name fieldDefs isOneOf description fields loc,
      types.schema.getType name = some (.inputObject fieldDefs isOneOf description) →
      (∀ fieldName field valueNode, (fieldName, field) ∈ fieldDefs.items →
        Dict.find fieldName (fieldNodes fields) = some valueNode →
        motive valueNode field.type) → motive (.object fields loc) (.named name))
    (notObject : ∀ name fieldDefs isOneOf description valueNode, IsPlain valueNode →
      types.schema.getType name = some (.inputObject fieldDefs isOneOf description) →
      (∀ fields loc, valueNode ≠ .object fields loc) → motive valueNode (.named name))
    (leaf : ∀ name valueNode, IsPlain valueNode →
      (∀ fieldDefs isOneOf description, types.schema.getType name ≠
        some (.inputObject fieldDefs isOneOf description)) →
      motive valueNode (.named name))
    (valueNode : ValueNode) (type : GraphQLType) : motive valueNode type := by
  refine validateInputLiteral.induct types none none
    (fun valueNode type _ => motive valueNode type)
    (fun _ _ nodes fields _ => ∀ fieldName field valueNode,
      (fieldName, field) ∈ fields → Dict.find fieldName nodes = some valueNode →
      motive valueNode field.type)
    (fun values itemType _ _ => ∀ itemNode ∈ values, motive itemNode itemType)
    ?_ ?_ ?_ ?_ ?_ ?_ ?_ ?_ ?_ ?_ ?_ ?_ ?_ ?_ ?_ valueNode type []
  · intro _ type node _
    exact variableNode node type
  · intro _ type node _
    exact variableNode node type
  · intro _ ofType loc
    exact nonNullNull loc ofType
  · intro _ ofType valueNode hvariable hnull ih
    exact nonNull valueNode ofType ⟨hvariable, hnull⟩ ih
  · intro _ itemType loc
    exact listNull loc itemType
  · intro _ itemType values loc ih
    exact list values loc itemType ih
  · intro _ itemType valueNode hvariable hnull hlist ih
    exact single valueNode itemType ⟨hvariable, hnull⟩ hlist ih
  · intro _ name loc
    exact namedNull loc name
  · intro _ name fieldDefs isOneOf description htype fields loc _ _ _ ih
    exact object name fieldDefs isOneOf description fields loc htype ih
  · intro _ name valueNode hvariable hnull fieldDefs isOneOf description htype hobject
    exact notObject name fieldDefs isOneOf description valueNode ⟨hvariable, hnull⟩
      htype hobject
  · intro _ name valueNode hvariable hnull hleaf
    exact leaf name valueNode ⟨hvariable, hnull⟩ hleaf
  · simp
  · intro _ _ nodes _ fieldName field rest ih hrest fieldName' field' valueNode hmem
      hfind
    rcases List.mem_cons.mp hmem with heq | hmem
    · cases heq
      exact ih valueNode hfind
    · exact hrest fieldName' field' valueNode hmem hfind
  · simp
  · intro itemType _ _ itemNode rest ih hrest itemNode' hmem
    rcases List.mem_cons.mp hmem with rfl | hmem
    · exact ih
    · exact hrest itemNode' hmem

/-! ## What validation accepts -/

/-- Is the value `Undefined` or `None`? -/
def isNullish : Option Value → Bool
  | none => true
  | some .none => true
  | _ => false

/-- Is the literal null, or a variable that has no value other than `None`? -/
def isNullLiteral (variableValues : Option VariableValues)
    (fragmentVariableValues : Option FragmentVariableValues) : ValueNode → Bool
  | .null _ => true
  | .variable node =>
      isNullish (getCoercedVariableValue node.name.value variableValues
        fragmentVariableValues)
  | _ => false

variable (types : InputTypes) (variableValues : Option VariableValues)
variable (fragmentVariableValues : Option FragmentVariableValues)

/-- What a OneOf literal has to consist of. -/
def IsOneOfNode (nodes : List (Text × ValueNode)) : Prop :=
  ∃ fieldName valueNode, nodes = [(fieldName, valueNode)] ∧
    isNullLiteral variableValues fragmentVariableValues valueNode = false

/-- The literals that are valid for a type, given the values of the variables. -/
inductive LiteralConforms : ValueNode → GraphQLType → Prop
  | ofVariable {node : VariableNode} {type : GraphQLType}
      (h : isNonNullType type → isNullLiteral variableValues fragmentVariableValues
        (.variable node) = false) : LiteralConforms (.variable node) type
  | nonNull {valueNode : ValueNode} {type : GraphQLType} (hplain : IsPlain valueNode)
      (h : LiteralConforms valueNode type) : LiteralConforms valueNode (.nonNull type)
  | noList {loc : Option Location} {type : GraphQLType} :
      LiteralConforms (.null loc) (.list type)
  | list {values : List ValueNode} {loc : Option Location} {type : GraphQLType}
      (h : ∀ itemNode ∈ values, LiteralConforms itemNode type) :
      LiteralConforms (.list values loc) (.list type)
  | single {valueNode : ValueNode} {type : GraphQLType} (hplain : IsPlain valueNode)
      (hlist : ∀ values loc, valueNode ≠ .list values loc)
      (h : LiteralConforms valueNode type) : LiteralConforms valueNode (.list type)
  | noValue {loc : Option Location} {name : Text} :
      LiteralConforms (.null loc) (.named name)
  | object {name : Text} {fieldDefs : Dict Text GraphQLInputField} {isOneOf : Bool}
      {description : Option Text} {fields : List ObjectFieldNode}
      {loc : Option Location}
      (htype : types.schema.getType name =
        some (.inputObject fieldDefs isOneOf description))
      (hdefined : ∀ node ∈ fieldNodes fields, (fieldDefs.get node.1).isSome)
      (hrequired : ∀ fieldName field, (fieldName, field) ∈ fieldDefs.items →
        (∀ valueNode, Dict.find fieldName (fieldNodes fields) = some valueNode →
          isMissingVariable valueNode variableValues fragmentVariableValues) →
        isRequiredArgument field.toInputDefinition = false)
      (hfields : ∀ fieldName field valueNode, (fieldName, field) ∈ fieldDefs.items →
        Dict.find fieldName (fieldNodes fields) = some valueNode →
        isMissingVariable valueNode variableValues fragmentVariableValues = false →
        LiteralConforms valueNode field.type)
      (honeOf : isOneOf →
        IsOneOfNode variableValues fragmentVariableValues (fieldNodes fields)) :
      LiteralConforms (.object fields loc) (.named name)
  | leaf {name : Text} {valueNode : ValueNode} {value : Value}
      (hplain : IsPlain valueNode)
      (hleaf : leafInputLiteral types name valueNode variableValues
        fragmentVariableValues = some (.value value)) :
      LiteralConforms valueNode (.named name)

section LiteralConforms

variable {types : InputTypes} {variableValues : Option VariableValues}
variable {fragmentVariableValues : Option FragmentVariableValues}
variable {valueNode : ValueNode} {type : GraphQLType} {name : Text}
variable {loc : Option Location}

theorem literalConforms_variable_iff {node : VariableNode} :
    LiteralConforms types variableValues fragmentVariableValues (.variable node) type ↔
      (isNonNullType type → isNullLiteral variableValues fragmentVariableValues
        (.variable node) = false) := by
  constructor
  · intro h
    cases h with
    | ofVariable h => exact h
    | nonNull hplain | single hplain | leaf hplain =>
        exact absurd rfl (hplain.ne_variable node)
  · exact .ofVariable

theorem not_literalConforms_nonNull_null :
    ¬ LiteralConforms types variableValues fragmentVariableValues (.null loc)
      (.nonNull type) := by
  intro h
  cases h with
  | nonNull hplain => exact hplain.ne_null loc rfl

theorem literalConforms_nonNull_iff (hplain : IsPlain valueNode) :
    LiteralConforms types variableValues fragmentVariableValues valueNode
        (.nonNull type) ↔
      LiteralConforms types variableValues fragmentVariableValues valueNode type := by
  constructor
  · intro h
    cases h with
    | ofVariable => exact absurd rfl (hplain.ne_variable _)
    | nonNull _ h => exact h
  · exact .nonNull hplain

theorem literalConforms_list_iff {values : List ValueNode} :
    LiteralConforms types variableValues fragmentVariableValues (.list values loc)
        (.list type) ↔
      ∀ itemNode ∈ values,
        LiteralConforms types variableValues fragmentVariableValues itemNode type := by
  constructor
  · intro h
    cases h with
    | list h => exact h
    | single _ hlist => exact absurd rfl (hlist values loc)
  · exact .list

theorem literalConforms_single_iff (hplain : IsPlain valueNode)
    (hlist : ∀ values loc, valueNode ≠ .list values loc) :
    LiteralConforms types variableValues fragmentVariableValues valueNode (.list type) ↔
      LiteralConforms types variableValues fragmentVariableValues valueNode type := by
  constructor
  · intro h
    cases h with
    | ofVariable => exact absurd rfl (hplain.ne_variable _)
    | noList => exact absurd rfl (hplain.ne_null _)
    | list => exact absurd rfl (hlist _ _)
    | single _ _ h => exact h
  · exact .single hplain hlist

/-- What is asked of a field of an input object literal. -/
def NodeConforms (types : InputTypes) (variableValues : Option VariableValues)
    (fragmentVariableValues : Option FragmentVariableValues)
    (nodes : List (Text × ValueNode)) (fieldName : Text) (field : GraphQLInputField) :
    Prop :=
  ((∀ valueNode, Dict.find fieldName nodes = some valueNode →
      isMissingVariable valueNode variableValues fragmentVariableValues) →
    isRequiredArgument field.toInputDefinition = false) ∧
  ∀ valueNode, Dict.find fieldName nodes = some valueNode →
    isMissingVariable valueNode variableValues fragmentVariableValues = false →
    LiteralConforms types variableValues fragmentVariableValues valueNode field.type

theorem literalConforms_object_iff {fieldDefs : Dict Text GraphQLInputField}
    {isOneOf : Bool} {description : Option Text} {fields : List ObjectFieldNode}
    (htype : types.schema.getType name =
      some (.inputObject fieldDefs isOneOf description)) :
    LiteralConforms types variableValues fragmentVariableValues (.object fields loc)
        (.named name) ↔
      (∀ node ∈ fieldNodes fields, (fieldDefs.get node.1).isSome) ∧
      (∀ entry ∈ fieldDefs.items, NodeConforms types variableValues
        fragmentVariableValues (fieldNodes fields) entry.1 entry.2) ∧
      (isOneOf →
        IsOneOfNode variableValues fragmentVariableValues (fieldNodes fields)) := by
  constructor
  · intro h
    cases h with
    | object htype' hdefined hrequired hfields honeOf =>
        rw [htype] at htype'
        cases htype'
        exact ⟨hdefined, fun entry hmem => ⟨hrequired entry.1 entry.2 hmem,
          fun valueNode => hfields entry.1 entry.2 valueNode hmem⟩, honeOf⟩
    | leaf _ hleaf =>
        rw [leafInputLiteral, htype] at hleaf
        cases hleaf
  · rintro ⟨hdefined, hfields, honeOf⟩
    exact .object htype hdefined (fun fieldName field hmem => (hfields _ hmem).1)
      (fun fieldName field valueNode hmem => (hfields _ hmem).2 valueNode) honeOf

theorem not_literalConforms_notObject (hplain : IsPlain valueNode)
    {fieldDefs : Dict Text GraphQLInputField} {isOneOf : Bool}
    {description : Option Text}
    (htype : types.schema.getType name =
      some (.inputObject fieldDefs isOneOf description))
    (hobject : ∀ fields loc, valueNode ≠ .object fields loc) :
    ¬ LiteralConforms types variableValues fragmentVariableValues valueNode
      (.named name) := by
  intro h
  cases h with
  | ofVariable => exact hplain.ne_variable _ rfl
  | noValue => exact hplain.ne_null _ rfl
  | object => exact hobject _ _ rfl
  | leaf _ hleaf =>
      rw [leafInputLiteral, htype] at hleaf
      cases hleaf

theorem literalConforms_leaf_iff (hplain : IsPlain valueNode)
    (hleaf : ∀ fieldDefs isOneOf description, types.schema.getType name ≠
      some (.inputObject fieldDefs isOneOf description)) :
    LiteralConforms types variableValues fragmentVariableValues valueNode
        (.named name) ↔
      ∃ value, leafInputLiteral types name valueNode variableValues
        fragmentVariableValues = some (.value value) := by
  constructor
  · intro h
    cases h with
    | ofVariable => exact absurd rfl (hplain.ne_variable _)
    | noValue => exact absurd rfl (hplain.ne_null _)
    | object htype => exact absurd htype (hleaf _ _ _)
    | leaf _ h => exact ⟨_, h⟩
  · rintro ⟨value, h⟩
    exact .leaf hplain h

/-- An input type other than an input object is a leaf type. -/
theorem exists_leafInputLiteral (valueNode : ValueNode)
    (variableValues : Option VariableValues)
    (fragmentVariableValues : Option FragmentVariableValues)
    (hinput : types.schema.isInputType (.named name))
    (hleaf : ∀ fieldDefs isOneOf description, types.schema.getType name ≠
      some (.inputObject fieldDefs isOneOf description)) :
    ∃ outcome, leafInputLiteral types name valueNode variableValues
      fragmentVariableValues = some outcome := by
  obtain ⟨outcome, houtcome⟩ := exists_leafInputValue .none hinput hleaf
  unfold leafInputLiteral
  unfold leafInputValue at houtcome
  split at houtcome
  · exact ⟨_, rfl⟩
  · exact ⟨_, rfl⟩
  · cases houtcome

end LiteralConforms

/-! ## Field nodes with different names -/

theorem fieldNodes_eq_map {fields : List ObjectFieldNode}
    (h : (fields.map fun field => field.name.value).Nodup) :
    fieldNodes fields = fields.map fun field => (field.name.value, field.value) := by
  have hgeneral : ∀ nodes : List (Text × ValueNode),
      (nodes.map Prod.fst ++ fields.map fun field => field.name.value).Nodup →
      fields.foldl addFieldNode nodes =
        nodes ++ fields.map fun field => (field.name.value, field.value) := by
    clear h
    induction fields with
    | nil => simp
    | cons field rest ih =>
        intro nodes hnodup
        have hnew : field.name.value ∉ nodes.map Prod.fst := by
          intro hmem
          exact (List.disjoint_of_nodup_append hnodup) hmem (by simp)
        rw [List.foldl_cons, addFieldNode, Dict.store_eq_append hnew, ih]
        · simp
        · simpa using hnodup
  exact hgeneral [] (by simpa using h)

section UniqueFieldNames

variable {values : List ValueNode} {fields : List ObjectFieldNode}
variable {loc : Option Location}

theorem UniqueFieldNames.item (h : UniqueFieldNames (.list values loc)) {itemNode}
    (hmem : itemNode ∈ values) : UniqueFieldNames itemNode := by
  cases h with
  | list h => exact h itemNode hmem
  | other hlist => exact absurd rfl (hlist values loc)

theorem UniqueFieldNames.nodup (h : UniqueFieldNames (.object fields loc)) :
    (fields.map fun field => field.name.value).Nodup := by
  cases h with
  | object hnames => exact hnames
  | other _ hobject => exact absurd rfl (hobject fields loc)

theorem UniqueFieldNames.mem_of_find (h : UniqueFieldNames (.object fields loc))
    {fieldName : Text} {valueNode : ValueNode}
    (hfind : Dict.find fieldName (fieldNodes fields) = some valueNode) :
    ∃ field ∈ fields, field.value = valueNode := by
  have hnodup := h.nodup
  rw [fieldNodes_eq_map hnodup] at hfind
  have hmem := Dict.mem_iff_find (by simpa [Function.comp_def] using hnodup)
    |>.mpr hfind
  obtain ⟨field, hfield, heq⟩ := List.mem_map.mp hmem
  exact ⟨field, hfield, (Prod.mk.inj heq).2⟩

theorem UniqueFieldNames.field (h : UniqueFieldNames (.object fields loc))
    {fieldName : Text} {valueNode : ValueNode}
    (hfind : Dict.find fieldName (fieldNodes fields) = some valueNode) :
    UniqueFieldNames valueNode := by
  obtain ⟨field, hfield, rfl⟩ := h.mem_of_find hfind
  cases h with
  | object _ h => exact h field hfield
  | other _ hobject => exact absurd rfl (hobject fields loc)

end UniqueFieldNames

/-! ## Validation decides conformance -/

/-- The variables of the literal are validated, or there are none. -/
def VariablesValidated (variableValues : Option VariableValues)
    (fragmentVariableValues : Option FragmentVariableValues) (valueNode : ValueNode) : Prop :=
  isStatic variableValues fragmentVariableValues = false ∨ IsConstLiteral valueNode

section VariablesValidated

variable {variableValues : Option VariableValues}
variable {fragmentVariableValues : Option FragmentVariableValues}
variable {loc : Option Location}

theorem VariablesValidated.variableNode {node : VariableNode}
    (h : VariablesValidated variableValues fragmentVariableValues (.variable node)) :
    isStatic variableValues fragmentVariableValues = false := by
  apply h.resolve_right
  intro hconst
  cases hconst with
  | other hvariable => exact hvariable node rfl

theorem VariablesValidated.item {values : List ValueNode} {itemNode : ValueNode}
    (h : VariablesValidated variableValues fragmentVariableValues (.list values loc))
    (hmem : itemNode ∈ values) :
    VariablesValidated variableValues fragmentVariableValues itemNode := by
  apply h.imp_right
  intro hconst
  cases hconst with
  | list h => exact h itemNode hmem
  | other _ hlist => exact absurd rfl (hlist values loc)

theorem VariablesValidated.field {fields : List ObjectFieldNode} {fieldName : Text}
    {valueNode : ValueNode}
    (h : VariablesValidated variableValues fragmentVariableValues (.object fields loc))
    (hunique : UniqueFieldNames (.object fields loc))
    (hfind : Dict.find fieldName (fieldNodes fields) = some valueNode) :
    VariablesValidated variableValues fragmentVariableValues valueNode := by
  obtain ⟨field, hfield, rfl⟩ := hunique.mem_of_find hfind
  apply h.imp_right
  intro hconst
  cases hconst with
  | object h => exact h field hfield
  | other _ _ hobject => exact absurd rfl (hobject fields loc)

end VariablesValidated

section Validation

variable {types : InputTypes} {variableValues : Option VariableValues}
variable {fragmentVariableValues : Option FragmentVariableValues}

theorem validateItemNodes_eq_nil_iff {values : List ValueNode} {itemType : GraphQLType}
    (h : ∀ itemNode ∈ values, ∀ path,
      validateInputLiteral types variableValues fragmentVariableValues itemNode itemType
        path = [] ↔
      LiteralConforms types variableValues fragmentVariableValues itemNode itemType)
    (index : ℕ) (path : List PathKey) :
    validateItemNodes types variableValues fragmentVariableValues values itemType index
        path = [] ↔
      ∀ itemNode ∈ values,
        LiteralConforms types variableValues fragmentVariableValues itemNode
          itemType := by
  induction values generalizing index with
  | nil => simp [validateItemNodes]
  | cons itemNode rest ih =>
      rw [validateItemNodes, List.append_eq_nil_iff, h itemNode List.mem_cons_self,
        ih (fun itemNode hmem => h itemNode (List.mem_cons_of_mem _ hmem)),
        List.forall_mem_cons]

/-- The errors of a variable that is the value of a defined field. -/
def fieldVariableErrors (types : InputTypes) (variableValues : Option VariableValues)
    (fragmentVariableValues : Option FragmentVariableValues) (name : Text)
    (isOneOf : Bool) (node : VariableNode) (fieldName : Text) (field : GraphQLInputField)
    (path : List PathKey) : List InputError :=
  let value := getCoercedVariableValue node.name.value variableValues
    fragmentVariableValues
  let errors := validateInputLiteral types variableValues fragmentVariableValues
    (.variable node) field.type (.field fieldName :: path)
  if isOneOf then oneOfVariableErrors node.name.value fieldName name value path ++ errors
  else if value.isNone && !isRequiredArgument field.toInputDefinition then []
  else errors

/-- The errors of a defined field. -/
def fieldNodeErrors (types : InputTypes) (variableValues : Option VariableValues)
    (fragmentVariableValues : Option FragmentVariableValues) (name : Text)
    (isOneOf : Bool) (nodes : List (Text × ValueNode)) (fieldName : Text)
    (field : GraphQLInputField) (path : List PathKey) : List InputError :=
  match Dict.find fieldName nodes with
  | none =>
      if isRequiredArgument field.toInputDefinition then
        [⟨.missingRequiredField name fieldName, path⟩]
      else []
  | some (.variable node) =>
      fieldVariableErrors types variableValues fragmentVariableValues name isOneOf node
        fieldName field path
  | some valueNode =>
      validateInputLiteral types variableValues fragmentVariableValues valueNode
        field.type (.field fieldName :: path)

theorem validateFieldNodes_cons (name : Text) (isOneOf : Bool)
    (nodes : List (Text × ValueNode)) (fieldName : Text) (field : GraphQLInputField)
    (rest : List (Text × GraphQLInputField)) (path : List PathKey)
    (hstatic : ∀ node, Dict.find fieldName nodes = some (.variable node) →
      isStatic variableValues fragmentVariableValues = false) :
    validateFieldNodes types variableValues fragmentVariableValues name isOneOf nodes
        ((fieldName, field) :: rest) path =
      fieldNodeErrors types variableValues fragmentVariableValues name isOneOf nodes
          fieldName field path ++
        validateFieldNodes types variableValues fragmentVariableValues name isOneOf nodes
          rest path := by
  rw [validateFieldNodes, fieldNodeErrors]
  congr 1
  split
  · simp [*]
  · rename_i valueNode hfind
    cases valueNode with
    | «variable» node => simp [hstatic node hfind, hfind, fieldVariableErrors]
    | int | float | string | boolean | null | «enum» | list | object => simp [hfind]

/-- Variables in a OneOf literal need to have a value. -/
def VariablesProvided (variableValues : Option VariableValues)
    (fragmentVariableValues : Option FragmentVariableValues)
    (nodes : List (Text × ValueNode)) (fieldName : Text) : Prop :=
  ∀ node, Dict.find fieldName nodes = some (.variable node) →
    isNullLiteral variableValues fragmentVariableValues (.variable node) = false

theorem isMissingVariable_of_not {valueNode : ValueNode}
    (h : ∀ node, valueNode ≠ .variable node) :
    isMissingVariable valueNode variableValues fragmentVariableValues = false := by
  unfold isMissingVariable
  split
  · exact absurd rfl (h _)
  · rfl

theorem isRequiredArgument_nonNull {input : InputDefinition}
    (h : isRequiredArgument input = true) : isNonNullType input.type = true := by
  simp only [isRequiredArgument, Bool.and_eq_true] at h
  exact h.1.1

theorem oneOfVariableErrors_eq_nil_iff {name fieldName type : Text}
    {value : Option Value} {path : List PathKey} :
    oneOfVariableErrors name fieldName type value path = [] ↔ isNullish value = false := by
  rcases value with _ | value
  · simp [oneOfVariableErrors, isNullish]
  · cases value <;> simp [oneOfVariableErrors, isNullish]

theorem fieldNodeErrors_eq_nil_iff {name fieldName : Text} {isOneOf : Bool}
    {nodes : List (Text × ValueNode)} {field : GraphQLInputField}
    (h : ∀ valueNode, Dict.find fieldName nodes = some valueNode → ∀ path,
      validateInputLiteral types variableValues fragmentVariableValues valueNode
        field.type path = [] ↔
      LiteralConforms types variableValues fragmentVariableValues valueNode field.type)
    (path : List PathKey) :
    fieldNodeErrors types variableValues fragmentVariableValues name isOneOf nodes
        fieldName field path = [] ↔
      NodeConforms types variableValues fragmentVariableValues nodes fieldName field ∧
      (isOneOf →
        VariablesProvided variableValues fragmentVariableValues nodes fieldName) := by
  unfold fieldNodeErrors NodeConforms VariablesProvided
  split
  · rename_i hfind
    simp [hfind]
  · rename_i node hfind
    have hvariable := h _ hfind (.field fieldName :: path)
    rw [literalConforms_variable_iff] at hvariable
    unfold fieldVariableErrors
    simp only [hfind, Option.some.injEq, forall_eq', ValueNode.variable.injEq,
      literalConforms_variable_iff, isMissingVariable, isNullLiteral] at hvariable ⊢
    cases hvalue : getCoercedVariableValue node.name.value variableValues
        fragmentVariableValues with
    | none =>
        cases isOneOf with
        | true => simp [oneOfVariableErrors, isNullish]
        | false =>
            cases hrequired : isRequiredArgument field.toInputDefinition with
            | false => simp
            | true =>
                rw [hvalue] at hvariable
                simp [hvariable, isNullish, isRequiredArgument_nonNull hrequired]
    | some value =>
        rw [hvalue] at hvariable
        cases isOneOf with
        | true => simp [oneOfVariableErrors_eq_nil_iff, hvariable, and_comm]
        | false => simp [hvariable]
  · rename_i valueNode hne hfind
    have hmissing : isMissingVariable valueNode variableValues fragmentVariableValues =
        false := isMissingVariable_of_not fun node heq => hne node heq
    simp only [hfind, Option.some.injEq, forall_eq', hmissing]
    rw [h valueNode hfind]
    simp only [Bool.false_eq_true, forall_const]
    simp
    exact fun _ _ node heq => (hne node heq).elim

theorem validateFieldNodes_eq_nil_iff {name : Text} {isOneOf : Bool}
    {nodes : List (Text × ValueNode)} {fields : List (Text × GraphQLInputField)}
    (hstatic : ∀ fieldName node, Dict.find fieldName nodes = some (.variable node) →
      isStatic variableValues fragmentVariableValues = false)
    (h : ∀ fieldName field valueNode, (fieldName, field) ∈ fields →
      Dict.find fieldName nodes = some valueNode → ∀ path,
      validateInputLiteral types variableValues fragmentVariableValues valueNode
        field.type path = [] ↔
      LiteralConforms types variableValues fragmentVariableValues valueNode field.type)
    (path : List PathKey) :
    validateFieldNodes types variableValues fragmentVariableValues name isOneOf nodes
        fields path = [] ↔
      (∀ entry ∈ fields, NodeConforms types variableValues fragmentVariableValues nodes
        entry.1 entry.2) ∧
      (isOneOf → ∀ entry ∈ fields,
        VariablesProvided variableValues fragmentVariableValues nodes entry.1) := by
  induction fields with
  | nil => simp [validateFieldNodes]
  | cons entry rest ih =>
      obtain ⟨fieldName, field⟩ := entry
      rw [validateFieldNodes_cons _ _ _ _ _ _ _ (hstatic fieldName), List.append_eq_nil_iff,
        fieldNodeErrors_eq_nil_iff (h fieldName field · List.mem_cons_self),
        ih (fun fieldName field valueNode hmem => h fieldName field valueNode
          (List.mem_cons_of_mem _ hmem)), List.forall_mem_cons, List.forall_mem_cons]
      tauto

theorem isNullLiteral_of_plain {valueNode : ValueNode} (hplain : IsPlain valueNode) :
    isNullLiteral variableValues fragmentVariableValues valueNode = false := by
  unfold isNullLiteral
  split
  · exact absurd rfl (hplain.ne_null _)
  · exact absurd rfl (hplain.ne_variable _)
  · rfl

theorem isOneOfNode_iff {fieldDefs : Dict Text GraphQLInputField}
    {fields : List ObjectFieldNode}
    (hnodup : (fields.map fun field => field.name.value).Nodup)
    (hdefined : ∀ node ∈ fieldNodes fields, (fieldDefs.get node.1).isSome)
    {name : Text} {path : List PathKey} :
    IsOneOfNode variableValues fragmentVariableValues (fieldNodes fields) ↔
      (∀ entry ∈ fieldDefs.items, VariablesProvided variableValues
        fragmentVariableValues (fieldNodes fields) entry.1) ∧
      oneOfLiteralErrors name fields path = [] := by
  rw [fieldNodes_eq_map hnodup] at hdefined ⊢
  unfold IsOneOfNode VariablesProvided
  constructor
  · rintro ⟨fieldName, valueNode, heq, hnull⟩
    rw [List.map_eq_singleton_iff] at heq
    obtain ⟨⟨fieldNode, valueNode', loc⟩, rfl, heq⟩ := heq
    cases heq
    constructor
    · intro entry _ node hfind
      rw [List.map_singleton, Dict.find] at hfind
      split at hfind
      · cases hfind
        exact hnull
      · cases hfind
    · unfold oneOfLiteralErrors
      split
      · rename_i heq
        cases heq
        simp [isNullLiteral] at hnull
      · rfl
      · rename_i _ hne
        exact absurd rfl (hne _)
  · rintro ⟨hprovided, hsingle⟩
    unfold oneOfLiteralErrors at hsingle
    split at hsingle
    · cases hsingle
    · rename_i field hnull
      obtain ⟨fieldNode, valueNode, loc⟩ := field
      refine ⟨fieldNode.value, valueNode, rfl, ?_⟩
      by_cases hvariable : ∃ node, valueNode = .variable node
      · obtain ⟨node, rfl⟩ := hvariable
        obtain ⟨field, hfield⟩ :=
          Option.isSome_iff_exists.mp (hdefined _ List.mem_cons_self)
        apply hprovided _ (Dict.mem_items_iff.mpr hfield) node
        simp [Dict.find]
      · apply isNullLiteral_of_plain
        constructor
        · exact fun node heq => hvariable ⟨node, heq⟩
        · rintro loc' rfl
          exact hnull _ _ _ rfl
    · cases hsingle

/-- Validation of literals whose variables are validated finds no error exactly in those
that conform. -/
theorem validateInputLiteral_eq_nil_iff_of_validated (hfields : HasInputFields types)
    (valueNode : ValueNode) (type : GraphQLType)
    (hvariables : VariablesValidated variableValues fragmentVariableValues valueNode)
    (hinput : types.schema.isInputType type) (hunique : UniqueFieldNames valueNode)
    (path : List PathKey) :
    validateInputLiteral types variableValues fragmentVariableValues valueNode type
        path = [] ↔
      LiteralConforms types variableValues fragmentVariableValues valueNode type := by
  induction valueNode, type using inputLiteral_induction types generalizing path with
  | variableNode node type =>
      have hstatic := hvariables.variableNode
      rw [validateInputLiteral, literalConforms_variable_iff, isNullLiteral]
      simp only [hstatic, variableErrors]
      cases isNonNullType type with
      | false => simp
      | true =>
          rcases getCoercedVariableValue node.name.value variableValues
            fragmentVariableValues with _ | value
          · simp [isNullish]
          · cases value <;> simp [isNullish]
  | nonNullNull loc ofType =>
      rw [validateInputLiteral]
      simp [not_literalConforms_nonNull_null]
  | nonNull valueNode ofType hplain ih =>
      rw [validateInputLiteral, literalConforms_nonNull_iff hplain]
      · exact ih hvariables hinput hunique path
      · exact hplain.ne_variable
      · exact hplain.ne_null
  | listNull loc itemType =>
      rw [validateInputLiteral]
      simp [LiteralConforms.noList]
  | list values loc itemType ih =>
      rw [validateInputLiteral, literalConforms_list_iff]
      exact validateItemNodes_eq_nil_iff
        (fun itemNode hmem => ih itemNode hmem (hvariables.item hmem) hinput
          (hunique.item hmem)) 0 path
  | single valueNode itemType hplain hlist ih =>
      rw [validateInputLiteral, literalConforms_single_iff hplain hlist]
      · exact ih hvariables hinput hunique path
      · exact hplain.ne_variable
      · exact hplain.ne_null
      · exact hlist
  | namedNull loc name =>
      rw [validateInputLiteral]
      simp [LiteralConforms.noValue]
  | object name fieldDefs isOneOf description fields loc htype ih =>
      have hnodup := hunique.nodup
      have hnodes := @validateFieldNodes_eq_nil_iff types variableValues
        fragmentVariableValues name isOneOf (fieldNodes fields) fieldDefs.items
        (fun fieldName node hfind => (hvariables.field hunique hfind).variableNode)
        (fun fieldName field valueNode hmem hfind =>
          ih fieldName field valueNode hmem hfind (hvariables.field hunique hfind)
            (hfields name fieldDefs isOneOf description fieldName field htype hmem)
            (hunique.field hfind)) path
      have hunknown : unknownFieldErrors name fieldDefs
          (fields.map fun field => field.name.value) path = [] ↔
          ∀ node ∈ fieldNodes fields, (fieldDefs.get node.1).isSome := by
        rw [unknownFieldErrors_eq_nil_iff, fieldNodes_eq_map hnodup]
        simp
      have honeOf : (∀ node ∈ fieldNodes fields, (fieldDefs.get node.1).isSome) →
          ((isOneOf → IsOneOfNode variableValues fragmentVariableValues
            (fieldNodes fields)) ↔
          (isOneOf → ∀ entry ∈ fieldDefs.items, VariablesProvided variableValues
            fragmentVariableValues (fieldNodes fields) entry.1) ∧
          (if isOneOf then oneOfLiteralErrors name (knownFields fieldDefs fields) path
            else []) = []) := by
        intro hdefined
        have hknown : knownFields fieldDefs fields = fields := by
          apply List.filter_eq_self.mpr
          rw [fieldNodes_eq_map hnodup] at hdefined
          intro field hmem
          exact hdefined _ (List.mem_map_of_mem hmem)
        cases isOneOf with
        | false => simp
        | true => simpa [hknown] using isOneOfNode_iff hnodup hdefined
      rw [validateInputLiteral, literalConforms_object_iff htype]
      · simp only [htype]
        rw [List.append_eq_nil_iff, List.append_eq_nil_iff, hnodes, hunknown]
        constructor
        · rintro ⟨⟨⟨hnode, hprovided⟩, hdefined⟩, hsingle⟩
          exact ⟨hdefined, hnode, (honeOf hdefined).mpr ⟨hprovided, hsingle⟩⟩
        · rintro ⟨hdefined, hnode, honeOfNode⟩
          obtain ⟨hprovided, hsingle⟩ := (honeOf hdefined).mp honeOfNode
          exact ⟨⟨⟨hnode, hprovided⟩, hdefined⟩, hsingle⟩
      · simp
      · simp
  | notObject name fieldDefs isOneOf description valueNode hplain htype hobject =>
      rw [validateInputLiteral]
      · simp only [htype]
        simp [not_literalConforms_notObject hplain htype hobject]
      · exact hplain.ne_variable
      · exact hplain.ne_null
  | leaf name valueNode hplain hleaf =>
      obtain ⟨outcome, houtcome⟩ := exists_leafInputLiteral valueNode variableValues
        fragmentVariableValues hinput hleaf
      rw [validateInputLiteral, literalConforms_leaf_iff hplain hleaf, houtcome]
      · split
        · rename_i htype
          exact absurd htype (hleaf _ _ _)
        · simp [leafErrors_eq_nil_iff]
      · exact hplain.ne_variable
      · exact hplain.ne_null

/-- Validation with the values of variables finds no error exactly in the literals
that conform. -/
theorem validateInputLiteral_eq_nil_iff (hfields : HasInputFields types)
    (hstatic : isStatic variableValues fragmentVariableValues = false)
    (valueNode : ValueNode) (type : GraphQLType)
    (hinput : types.schema.isInputType type) (hunique : UniqueFieldNames valueNode)
    (path : List PathKey) :
    validateInputLiteral types variableValues fragmentVariableValues valueNode type
        path = [] ↔
      LiteralConforms types variableValues fragmentVariableValues valueNode type :=
  validateInputLiteral_eq_nil_iff_of_validated hfields valueNode type (.inl hstatic) hinput
    hunique path

end Validation

/-! ## What coercion accepts -/

section LosesEntry

variable (types : InputTypes) (variableValues : Option VariableValues)
variable (fragmentVariableValues : Option FragmentVariableValues)

/-- Does the leaf type of a literal coerce it to `None`? -/
def literalCoercesToNone (valueNode : ValueNode) : GraphQLType → Bool
  | .nonNull ofType => literalCoercesToNone valueNode ofType
  | .list _ => false
  | .named name =>
      match leafInputLiteral types name valueNode variableValues
        fragmentVariableValues with
      | some (.value .none) => true
      | _ => false

/-- The literal contains a OneOf object whose entry is coerced to `None`. -/
inductive LosesLiteralEntry : ValueNode → GraphQLType → Prop
  | oneOf {name fieldName : Text} {fieldDefs : Dict Text GraphQLInputField}
      {description : Option Text} {field : GraphQLInputField} {valueNode : ValueNode}
      {fields : List ObjectFieldNode} {loc : Option Location}
      (htype : types.schema.getType name =
        some (.inputObject fieldDefs true description))
      (hnodes : fieldNodes fields = [(fieldName, valueNode)])
      (hfield : fieldDefs.get fieldName = some field) (hplain : IsPlain valueNode)
      (h : literalCoercesToNone types variableValues fragmentVariableValues valueNode
        field.type) : LosesLiteralEntry (.object fields loc) (.named name)
  | nonNull {valueNode : ValueNode} {type : GraphQLType} (hplain : IsPlain valueNode)
      (h : LosesLiteralEntry valueNode type) : LosesLiteralEntry valueNode (.nonNull type)
  | item {itemNode : ValueNode} {values : List ValueNode} {loc : Option Location}
      {type : GraphQLType} (hitem : itemNode ∈ values)
      (h : LosesLiteralEntry itemNode type) :
      LosesLiteralEntry (.list values loc) (.list type)
  | single {valueNode : ValueNode} {type : GraphQLType} (hplain : IsPlain valueNode)
      (hlist : ∀ values loc, valueNode ≠ .list values loc)
      (h : LosesLiteralEntry valueNode type) : LosesLiteralEntry valueNode (.list type)
  | field {name fieldName : Text} {fieldDefs : Dict Text GraphQLInputField}
      {isOneOf : Bool} {description : Option Text} {field : GraphQLInputField}
      {valueNode : ValueNode} {fields : List ObjectFieldNode} {loc : Option Location}
      (htype : types.schema.getType name =
        some (.inputObject fieldDefs isOneOf description))
      (hfield : (fieldName, field) ∈ fieldDefs.items)
      (hnode : Dict.find fieldName (fieldNodes fields) = some valueNode)
      (h : LosesLiteralEntry valueNode field.type) :
      LosesLiteralEntry (.object fields loc) (.named name)

/-- The literals that are coerced. -/
def LiteralCoercible (valueNode : ValueNode) (type : GraphQLType) : Prop :=
  LiteralConforms types variableValues fragmentVariableValues valueNode type ∧
  ¬ LosesLiteralEntry types variableValues fragmentVariableValues valueNode type

end LosesEntry

section LiteralCoercible

variable {types : InputTypes} {variableValues : Option VariableValues}
variable {fragmentVariableValues : Option FragmentVariableValues}
variable {valueNode : ValueNode} {type : GraphQLType} {name : Text}
variable {loc : Option Location}

theorem isPlain_object {fields : List ObjectFieldNode} : IsPlain (.object fields loc) :=
  ⟨by simp, by simp⟩

theorem isPlain_list {values : List ValueNode} : IsPlain (.list values loc) :=
  ⟨by simp, by simp⟩

theorem LosesLiteralEntry.isPlain
    (h : LosesLiteralEntry types variableValues fragmentVariableValues valueNode type) :
    IsPlain valueNode := by
  cases h with
  | oneOf | field => exact isPlain_object
  | item => exact isPlain_list
  | nonNull hplain | single hplain => exact hplain

theorem literalCoercible_nonNull_iff (hplain : IsPlain valueNode) :
    LiteralCoercible types variableValues fragmentVariableValues valueNode
        (.nonNull type) ↔
      LiteralCoercible types variableValues fragmentVariableValues valueNode type := by
  unfold LiteralCoercible
  rw [literalConforms_nonNull_iff hplain]
  apply and_congr_right
  intro _
  apply not_congr
  constructor
  · intro h
    cases h with
    | nonNull _ h => exact h
  · exact .nonNull hplain

theorem literalCoercible_list_iff {values : List ValueNode} :
    LiteralCoercible types variableValues fragmentVariableValues (.list values loc)
        (.list type) ↔
      ∀ itemNode ∈ values,
        LiteralCoercible types variableValues fragmentVariableValues itemNode type := by
  unfold LiteralCoercible
  rw [literalConforms_list_iff]
  constructor
  · rintro ⟨hconforms, hloses⟩ itemNode hitem
    exact ⟨hconforms itemNode hitem, fun h => hloses (.item hitem h)⟩
  · intro h
    refine ⟨fun itemNode hitem => (h itemNode hitem).1, fun hloses => ?_⟩
    cases hloses with
    | item hitem hloses => exact (h _ hitem).2 hloses
    | single _ hlist => exact hlist values loc rfl

theorem literalCoercible_single_iff (hplain : IsPlain valueNode)
    (hlist : ∀ values loc, valueNode ≠ .list values loc) :
    LiteralCoercible types variableValues fragmentVariableValues valueNode
        (.list type) ↔
      LiteralCoercible types variableValues fragmentVariableValues valueNode type := by
  unfold LiteralCoercible
  rw [literalConforms_single_iff hplain hlist]
  apply and_congr_right
  intro _
  apply not_congr
  constructor
  · intro h
    cases h with
    | item => exact absurd rfl (hlist _ _)
    | single _ _ h => exact h
  · exact .single hplain hlist

/-- What is asked of a field of an input object literal in order to coerce it. -/
def NodeCoercible (types : InputTypes) (variableValues : Option VariableValues)
    (fragmentVariableValues : Option FragmentVariableValues)
    (nodes : List (Text × ValueNode)) (fieldName : Text) (field : GraphQLInputField) :
    Prop :=
  ((∀ valueNode, Dict.find fieldName nodes = some valueNode →
      isMissingVariable valueNode variableValues fragmentVariableValues) →
    isRequiredArgument field.toInputDefinition = false) ∧
  ∀ valueNode, Dict.find fieldName nodes = some valueNode →
    isMissingVariable valueNode variableValues fragmentVariableValues = false →
    LiteralCoercible types variableValues fragmentVariableValues valueNode field.type

/-- What a OneOf literal has to consist of in order to be coerced. -/
def IsCoercibleNode (types : InputTypes) (variableValues : Option VariableValues)
    (fragmentVariableValues : Option FragmentVariableValues)
    (fieldDefs : Dict Text GraphQLInputField) (nodes : List (Text × ValueNode)) : Prop :=
  ∃ fieldName valueNode, nodes = [(fieldName, valueNode)] ∧
    isNullLiteral variableValues fragmentVariableValues valueNode = false ∧
    ∀ field, fieldDefs.get fieldName = some field → IsPlain valueNode →
      literalCoercesToNone types variableValues fragmentVariableValues valueNode
        field.type = false

theorem literalCoercible_object_iff {fieldDefs : Dict Text GraphQLInputField}
    {isOneOf : Bool} {description : Option Text} {fields : List ObjectFieldNode}
    (htype : types.schema.getType name =
      some (.inputObject fieldDefs isOneOf description)) :
    LiteralCoercible types variableValues fragmentVariableValues (.object fields loc)
        (.named name) ↔
      (∀ node ∈ fieldNodes fields, (fieldDefs.get node.1).isSome) ∧
      (∀ entry ∈ fieldDefs.items, NodeCoercible types variableValues
        fragmentVariableValues (fieldNodes fields) entry.1 entry.2) ∧
      (isOneOf → IsCoercibleNode types variableValues fragmentVariableValues fieldDefs
        (fieldNodes fields)) := by
  unfold LiteralCoercible
  rw [literalConforms_object_iff htype]
  constructor
  · rintro ⟨⟨hdefined, hfields, honeOf⟩, hloses⟩
    refine ⟨hdefined, fun entry hmem => ⟨(hfields entry hmem).1, ?_⟩, ?_⟩
    · intro valueNode hfind hmissing
      exact ⟨(hfields entry hmem).2 valueNode hfind hmissing,
        fun h => hloses (.field htype hmem hfind h)⟩
    · intro hisOneOf
      obtain ⟨fieldName, valueNode, hnodes, hnull⟩ := honeOf hisOneOf
      subst hisOneOf
      refine ⟨fieldName, valueNode, hnodes, hnull, fun field hfield hplain => ?_⟩
      by_contra h
      exact hloses (.oneOf htype hnodes hfield hplain (by simpa using h))
  · rintro ⟨hdefined, hfields, honeOf⟩
    refine ⟨⟨hdefined, fun entry hmem => ⟨(hfields entry hmem).1, ?_⟩, ?_⟩, ?_⟩
    · exact fun valueNode hfind hmissing =>
        ((hfields entry hmem).2 valueNode hfind hmissing).1
    · intro hisOneOf
      obtain ⟨fieldName, valueNode, hnodes, hnull, _⟩ := honeOf hisOneOf
      exact ⟨fieldName, valueNode, hnodes, hnull⟩
    · intro hloses
      cases hloses with
      | oneOf htype' hnodes hfield hplain h =>
          rw [htype] at htype'
          cases htype'
          obtain ⟨fieldName', valueNode', hnodes', _, hcoerces⟩ := honeOf rfl
          rw [hnodes] at hnodes'
          cases hnodes'
          rw [hcoerces _ hfield hplain] at h
          cases h
      | field htype' hmem hfind h =>
          rw [htype] at htype'
          cases htype'
          have hmissing := @isMissingVariable_of_not variableValues
            fragmentVariableValues _ h.isPlain.ne_variable
          exact ((hfields _ hmem).2 _ hfind hmissing).2 h

theorem literalCoercible_leaf_iff (hplain : IsPlain valueNode)
    (hleaf : ∀ fieldDefs isOneOf description, types.schema.getType name ≠
      some (.inputObject fieldDefs isOneOf description)) :
    LiteralCoercible types variableValues fragmentVariableValues valueNode
        (.named name) ↔
      ∃ value, leafInputLiteral types name valueNode variableValues
        fragmentVariableValues = some (.value value) := by
  unfold LiteralCoercible
  rw [literalConforms_leaf_iff hplain hleaf]
  apply and_iff_left
  intro h
  cases h with
  | oneOf htype => exact hleaf _ _ _ htype
  | field htype => exact hleaf _ _ _ htype

end LiteralCoercible

/-! ## Coercion decides what is coercible -/

section Coercion

variable {types : InputTypes} {coerceDefault : DefaultCoercion}
variable {variableValues : Option VariableValues}
variable {fragmentVariableValues : Option FragmentVariableValues}

/-- The coercion of one field of an input object literal. -/
def coerceFieldNode (types : InputTypes) (coerceDefault : DefaultCoercion)
    (variableValues : Option VariableValues)
    (fragmentVariableValues : Option FragmentVariableValues)
    (nodes : List (Text × ValueNode)) (fieldName : Text) (field : GraphQLInputField) :
    Except Stop (Option Value) :=
  let useDefault :=
    if isRequiredArgument field.toInputDefinition then Except.error Stop.undefined
    else coerceDefault field.toInputDefinition
  match Dict.find fieldName nodes with
  | none => useDefault
  | some valueNode =>
      if isMissingVariable valueNode variableValues fragmentVariableValues then useDefault
      else some <$> coerceInputLiteral types coerceDefault variableValues
        fragmentVariableValues valueNode field.type

theorem coerceFieldNode_some {nodes : List (Text × ValueNode)} {fieldName : Text}
    {field : GraphQLInputField} {valueNode : ValueNode}
    (hfind : Dict.find fieldName nodes = some valueNode)
    (hmissing : isMissingVariable valueNode variableValues fragmentVariableValues =
      false) :
    coerceFieldNode types coerceDefault variableValues fragmentVariableValues nodes
        fieldName field =
      some <$> coerceInputLiteral types coerceDefault variableValues
        fragmentVariableValues valueNode field.type := by
  rw [coerceFieldNode, hfind]
  simp only [hmissing]
  rfl

theorem coerceFieldNode_none {nodes : List (Text × ValueNode)} {fieldName : Text}
    {field : GraphQLInputField}
    (hmissing : ∀ valueNode, Dict.find fieldName nodes = some valueNode →
      isMissingVariable valueNode variableValues fragmentVariableValues) :
    coerceFieldNode types coerceDefault variableValues fragmentVariableValues nodes
        fieldName field =
      if isRequiredArgument field.toInputDefinition then .error .undefined
      else coerceDefault field.toInputDefinition := by
  rw [coerceFieldNode]
  cases hfind : Dict.find fieldName nodes with
  | none => rfl
  | some valueNode => simp only [hmissing valueNode hfind, if_true]

theorem coerceFieldNodes_eq (nodes : List (Text × ValueNode))
    (fields : List (Text × GraphQLInputField)) (coercedDict : List (Text × Value)) :
    coerceFieldNodes types coerceDefault variableValues fragmentVariableValues nodes
        fields coercedDict =
      storeFields (coerceFieldNode types coerceDefault variableValues
        fragmentVariableValues nodes) fields coercedDict := by
  induction fields generalizing coercedDict with
  | nil => rw [coerceFieldNodes, storeFields]
  | cons entry rest ih =>
      rw [coerceFieldNodes, storeFields, coerceFieldNode]
      congr 1
      · split <;> simp [*]
      · funext coercedField
        exact ih _

section Named

variable {name : Text} {fieldDefs : Dict Text GraphQLInputField} {isOneOf : Bool}
variable {description : Option Text}

theorem coerceInputLiteral_object (htype : types.schema.getType name =
      some (.inputObject fieldDefs isOneOf description)) (fields : List ObjectFieldNode)
    (loc : Option Location) :
    coerceInputLiteral types coerceDefault variableValues fragmentVariableValues
        (.object fields loc) (.named name) =
      if (fieldNodes fields).any fun node => (fieldDefs.get node.1).isNone then
        .error .undefined
      else (do
        let coercedDict ← storeFields (coerceFieldNode types coerceDefault variableValues
          fragmentVariableValues (fieldNodes fields)) fieldDefs.items []
        if isOneOf && !isOneOfLiteral fieldDefs (fieldNodes fields) coercedDict then
          .error .undefined
        else .ok (types.outType name coercedDict)) := by
  rw [coerceInputLiteral]
  · simp only [htype, coerceFieldNodes_eq]
    rfl
  · simp
  · simp

theorem coerceInputLiteral_notObject {valueNode : ValueNode} (hplain : IsPlain valueNode)
    (htype : types.schema.getType name =
      some (.inputObject fieldDefs isOneOf description))
    (hobject : ∀ fields loc, valueNode ≠ .object fields loc) :
    coerceInputLiteral types coerceDefault variableValues fragmentVariableValues valueNode
      (.named name) = .error .undefined := by
  rw [coerceInputLiteral]
  · simp only [htype]
  · exact hplain.ne_variable
  · exact hplain.ne_null

theorem coerceInputLiteral_leaf {valueNode : ValueNode} (hplain : IsPlain valueNode)
    (hleaf : ∀ fieldDefs isOneOf description, types.schema.getType name ≠
      some (.inputObject fieldDefs isOneOf description)) :
    coerceInputLiteral types coerceDefault variableValues fragmentVariableValues valueNode
        (.named name) =
      finishLeaf name (leafInputLiteral types name valueNode variableValues
        fragmentVariableValues) := by
  rw [coerceInputLiteral]
  · split
    · rename_i htype
      exact absurd htype (hleaf _ _ _)
    · rfl
  · exact hplain.ne_variable
  · exact hplain.ne_null

end Named

/-- What the coercion of a literal that is neither a variable nor null returns is
`None` only if the leaf type returns it. -/
theorem coerceInputLiteral_eq_none_iff {valueNode : ValueNode} {value : Value}
    {type : GraphQLType} (hplain : IsPlain valueNode)
    (h : coerceInputLiteral types coerceDefault variableValues fragmentVariableValues
      valueNode type = .ok value) :
    value = .none ↔ literalCoercesToNone types variableValues fragmentVariableValues
      valueNode type := by
  induction type with
  | nonNull ofType ih =>
      rw [coerceInputLiteral] at h
      · exact ih h
      · exact hplain.ne_variable
      · exact hplain.ne_null
  | list itemType _ =>
      have hlist : ∃ items, value = .list items := by
        by_cases hvalues : ∃ values loc, valueNode = .list values loc
        · obtain ⟨values, loc, rfl⟩ := hvalues
          rw [coerceInputLiteral] at h
          obtain ⟨coercedList, _, h⟩ := bind_eq_ok.mp h
          cases h
          exact ⟨coercedList, rfl⟩
        · rw [coerceInputLiteral] at h
          · obtain ⟨itemValue, _, h⟩ := bind_eq_ok.mp h
            cases h
            exact ⟨[itemValue], rfl⟩
          · exact hplain.ne_variable
          · exact hplain.ne_null
          · exact fun values loc hvalue => hvalues ⟨values, loc, hvalue⟩
      obtain ⟨items, rfl⟩ := hlist
      simp [literalCoercesToNone]
  | named name =>
      by_cases htype : ∃ fieldDefs isOneOf description, types.schema.getType name =
          some (.inputObject fieldDefs isOneOf description)
      · obtain ⟨fieldDefs, isOneOf, description, htype⟩ := htype
        have hcoerces : literalCoercesToNone types variableValues fragmentVariableValues
            valueNode (.named name) = false := by
          simp [literalCoercesToNone, leafInputLiteral, htype]
        rw [hcoerces]
        by_cases hobject : ∃ fields loc, valueNode = .object fields loc
        · obtain ⟨fields, loc, rfl⟩ := hobject
          rw [coerceInputLiteral_object htype] at h
          split at h
          · cases h
          · obtain ⟨coercedDict, _, h⟩ := bind_eq_ok.mp h
            split at h
            · cases h
            · cases h
              simp [types.outType_ne_none]
        · rw [coerceInputLiteral_notObject hplain htype
            fun fields loc hnode => hobject ⟨fields, loc, hnode⟩] at h
          cases h
      · rw [coerceInputLiteral_leaf hplain fun fieldDefs isOneOf description hdef =>
          htype ⟨fieldDefs, isOneOf, description, hdef⟩] at h
        rw [literalCoercesToNone]
        cases hleaf : leafInputLiteral types name valueNode variableValues
            fragmentVariableValues with
        | none =>
            rw [hleaf] at h
            cases h
        | some outcome =>
            rw [hleaf] at h
            cases outcome with
            | value coercedValue =>
                cases h
                cases value <;> simp
            | undefined | graphQLError | exception => cases h

theorem coerceInputLiteral_variable (node : VariableNode) (type : GraphQLType) :
    coerceInputLiteral types coerceDefault variableValues fragmentVariableValues
        (.variable node) type =
      match getCoercedVariableValue node.name.value variableValues
        fragmentVariableValues with
      | none => .error .undefined
      | some .none => if isNonNullType type then .error .undefined else .ok .none
      | some value => .ok value := by
  unfold coerceInputLiteral
  rfl

theorem coerceInputLiteral_none_or {valueNode : ValueNode} {value : Value}
    {type : GraphQLType}
    (h : coerceInputLiteral types coerceDefault variableValues fragmentVariableValues
      valueNode type = .ok value) :
    value = .none ↔
      isNullLiteral variableValues fragmentVariableValues valueNode ∨
      IsPlain valueNode ∧ literalCoercesToNone types variableValues fragmentVariableValues
        valueNode type := by
  by_cases hplain : IsPlain valueNode
  · rw [coerceInputLiteral_eq_none_iff hplain h, isNullLiteral_of_plain hplain]
    simp [hplain]
  · simp only [hplain, false_and, or_false]
    by_cases hvariable : ∃ node, valueNode = .variable node
    · obtain ⟨node, rfl⟩ := hvariable
      rw [coerceInputLiteral_variable] at h
      rw [isNullLiteral]
      split at h
      · cases h
      · split at h
        · cases h
        · cases h
          simp [*, isNullish]
      · rename_i value' hne hvalue
        cases h
        rw [hvalue]
        cases value with
        | none => exact absurd rfl hne
        | bool | int | str | list | dict | object => simp [isNullish]
    · have hnull : ∃ loc, valueNode = .null loc := by
        by_contra hnull
        exact hplain ⟨fun node heq => hvariable ⟨node, heq⟩,
          fun loc heq => hnull ⟨loc, heq⟩⟩
      obtain ⟨loc, rfl⟩ := hnull
      cases type with
      | nonNull =>
          rw [coerceInputLiteral] at h
          cases h
      | list | named =>
          rw [coerceInputLiteral] at h
          cases h
          simp [isNullLiteral]

theorem literalCoercible_missing_iff {valueNode : ValueNode} {type : GraphQLType}
    (hmissing : isMissingVariable valueNode variableValues fragmentVariableValues =
      true) :
    LiteralCoercible types variableValues fragmentVariableValues valueNode type ↔
      isNonNullType type = false := by
  unfold isMissingVariable at hmissing
  split at hmissing
  · rename_i node
    have hloses : ¬ LosesLiteralEntry types variableValues fragmentVariableValues
        (.variable node) type := fun h => h.isPlain.ne_variable node rfl
    rw [LiteralCoercible, literalConforms_variable_iff, isNullLiteral,
      Option.isNone_iff_eq_none.mp hmissing]
    simp [hloses, isNullish]
  · cases hmissing

theorem coerceItemNodes_settles {values : List ValueNode} {itemType : GraphQLType}
    (h : ∀ itemNode ∈ values, Settles Stop.undefined
      (coerceInputLiteral types coerceDefault variableValues fragmentVariableValues
        itemNode itemType)
      (LiteralCoercible types variableValues fragmentVariableValues itemNode itemType ∧
        isMissingVariable itemNode variableValues fragmentVariableValues = false)) :
    Settles Stop.undefined
      (coerceItemNodes types coerceDefault variableValues fragmentVariableValues values
        itemType)
      (∀ itemNode ∈ values,
        LiteralCoercible types variableValues fragmentVariableValues itemNode
          itemType) := by
  induction values with
  | nil =>
      rw [coerceItemNodes]
      exact .ok (by simp)
  | cons itemNode rest ih =>
      have hrest := ih fun itemNode hmem => h itemNode (List.mem_cons_of_mem _ hmem)
      have hitem := h itemNode List.mem_cons_self
      rw [coerceItemNodes, List.forall_mem_cons]
      apply Settles.bind
      · by_cases hmissing :
            isMissingVariable itemNode variableValues fragmentVariableValues = true
        · rw [literalCoercible_missing_iff hmissing]
          cases hnonNull : isNonNullType itemType with
          | false =>
              simp only [hmissing, Bool.not_false, Bool.and_self, if_true]
              exact .ok trivial
          | true =>
              simp only [Bool.not_true, Bool.false_and, Bool.false_eq_true, if_false]
              exact hitem.congr (by simp [hmissing])
        · simp only [hmissing, Bool.and_false, Bool.false_eq_true, if_false]
          exact hitem.congr (by simp [hmissing])
      · intro _ _
        exact hrest.bind_ok

end Coercion

section ValidTypes

variable {types : InputTypes} {depth : ℕ} {variableValues : Option VariableValues}
variable {fragmentVariableValues : Option FragmentVariableValues}

theorem isNullLiteral_of_missing {valueNode : ValueNode}
    (h : isMissingVariable valueNode variableValues fragmentVariableValues = true) :
    isNullLiteral variableValues fragmentVariableValues valueNode = true := by
  unfold isMissingVariable at h
  split at h
  · rw [isNullLiteral, Option.isNone_iff_eq_none.mp h, isNullish]
  · cases h

theorem isOneOfLiteral_single {fieldDefs : Dict Text GraphQLInputField}
    {fieldName : Text} {field : GraphQLInputField} {valueNode : ValueNode} {value : Value}
    (hfield : fieldDefs.get fieldName = some field)
    (hnull : ∀ loc, valueNode = .null loc → value = .none) :
    isOneOfLiteral fieldDefs [(fieldName, valueNode)]
        [(field.outNameOr fieldName, value)] = true ↔ value ≠ .none := by
  unfold isOneOfLiteral
  split
  · rename_i loc heq
    cases heq
    simp [hnull _ rfl]
  · rename_i _ heq heq'
    cases heq
    cases heq'
    rw [hfield]
    cases value <;> simp
  · rename_i hne
    exact absurd rfl (hne _ _ _ _ rfl)

theorem isOneOfLiteral_iff (hvalid : ValidInputTypes types depth) {name : Text}
    {fieldDefs : Dict Text GraphQLInputField} {description : Option Text}
    {nodes : List (Text × ValueNode)} {coercedDict : List (Text × Value)}
    (htype : types.schema.getType name =
      some (.inputObject fieldDefs true description))
    (hdefined : ∀ node ∈ nodes, (fieldDefs.get node.1).isSome)
    (hfields : ∀ entry ∈ fieldDefs.items,
      Settles Stop.undefined
        (coerceFieldNode types (coerceDefaultValue types depth) variableValues
          fragmentVariableValues nodes entry.1 entry.2)
        (NodeCoercible types variableValues fragmentVariableValues nodes entry.1 entry.2))
    (hstore : storeFields (coerceFieldNode types (coerceDefaultValue types depth)
      variableValues fragmentVariableValues nodes) fieldDefs.items [] = .ok coercedDict) :
    isOneOfLiteral fieldDefs nodes coercedDict = true ↔
      IsCoercibleNode types variableValues fragmentVariableValues fieldDefs nodes := by
  by_cases hnodes : ∃ fieldName valueNode, nodes = [(fieldName, valueNode)]
  · obtain ⟨fieldName, valueNode, rfl⟩ := hnodes
    obtain ⟨field, hfield⟩ :=
      Option.isSome_iff_exists.mp (hdefined _ List.mem_cons_self)
    have haccepted := (settles_storeFields hfields []).of_ok hstore
    have hmem : (fieldName, field) ∈ fieldDefs.items := Dict.mem_items_iff.mpr hfield
    have hfind : Dict.find fieldName [(fieldName, valueNode)] = some valueNode := by
      simp [Dict.find]
    -- Fields that are not given have no default value.
    have hnone : ∀ entry ∈ fieldDefs.items,
        (∀ valueNode', Dict.find entry.1 [(fieldName, valueNode)] = some valueNode' →
          isMissingVariable valueNode' variableValues fragmentVariableValues) →
        coerceFieldNode types (coerceDefaultValue types depth) variableValues
          fragmentVariableValues [(fieldName, valueNode)] entry.1 entry.2 = .ok none := by
      intro entry hentry hmissing
      rw [coerceFieldNode_none hmissing]
      simp only [(haccepted _ hentry).1 hmissing]
      exact hvalid.coerceDefault_oneOf htype hentry
    have hothers : ∀ entry ∈ fieldDefs.items, entry.1 ≠ fieldName →
        coerceFieldNode types (coerceDefaultValue types depth) variableValues
          fragmentVariableValues [(fieldName, valueNode)] entry.1 entry.2 = .ok none := by
      intro entry hentry hne
      apply hnone entry hentry
      intro valueNode' hfind'
      simp [Dict.find, hne.symm] at hfind'
    by_cases hmissing :
        isMissingVariable valueNode variableValues fragmentVariableValues = true
    · have hempty : storeFields (coerceFieldNode types (coerceDefaultValue types depth)
          variableValues fragmentVariableValues [(fieldName, valueNode)])
          fieldDefs.items [] = .ok [] := by
        apply storeFields_eq_self
        intro entry hentry
        apply hnone entry hentry
        intro valueNode' hfind'
        rw [Dict.find] at hfind'
        split at hfind'
        · cases hfind'
          exact hmissing
        · cases hfind'
      rw [hempty] at hstore
      cases hstore
      have hnull := isNullLiteral_of_missing hmissing
      constructor
      · intro h
        cases valueNode <;> simp [isOneOfLiteral] at h
      · rintro ⟨fieldName', valueNode', heq, hnull', _⟩
        cases heq
        rw [hnull] at hnull'
        cases hnull'
    · rw [Bool.not_eq_true] at hmissing
      obtain ⟨coercedField, hcoerced⟩ :=
        (hfields _ hmem).exists_ok (haccepted _ hmem)
      rw [coerceFieldNode_some hfind hmissing] at hcoerced
      obtain ⟨value, hvalue, _⟩ := map_eq_ok.mp hcoerced
      have hsingle : storeFields (coerceFieldNode types (coerceDefaultValue types depth)
          variableValues fragmentVariableValues [(fieldName, valueNode)])
          fieldDefs.items [] = .ok [(field.outNameOr fieldName, value)] := by
        apply storeFields_eq_single hfield _ hothers
        rw [coerceFieldNode_some hfind hmissing, hvalue]
        rfl
      rw [hsingle] at hstore
      cases hstore
      have hnone := coerceInputLiteral_none_or hvalue
      rw [isOneOfLiteral_single hfield fun loc heq => hnone.mpr (.inl (by
        rw [heq, isNullLiteral])), ne_eq, hnone]
      unfold IsCoercibleNode
      constructor
      · intro h
        refine ⟨fieldName, valueNode, rfl, by simpa using fun hnull => h (.inl hnull), ?_⟩
        intro field' hfield' hplain
        rw [hfield] at hfield'
        cases hfield'
        simpa using fun hcoerces => h (.inr ⟨hplain, hcoerces⟩)
      · rintro ⟨fieldName', valueNode', heq, hnull, hcoerces⟩ h
        cases heq
        rcases h with h | ⟨hplain, h⟩
        · rw [hnull] at h
          cases h
        · rw [hcoerces field hfield hplain] at h
          cases h
  · constructor
    · intro h
      unfold isOneOfLiteral at h
      split at h
      · cases h
      · exact absurd ⟨_, _, rfl⟩ hnodes
      · cases h
    · rintro ⟨fieldName, valueNode, heq, _⟩
      exact absurd ⟨fieldName, valueNode, heq⟩ hnodes

theorem coerceFieldNode_settles (hvalid : ValidInputTypes types depth) {name : Text}
    {fieldDefs : Dict Text GraphQLInputField} {isOneOf : Bool}
    {description : Option Text} {nodes : List (Text × ValueNode)} {fieldName : Text}
    {field : GraphQLInputField}
    (htype : types.schema.getType name =
      some (.inputObject fieldDefs isOneOf description))
    (hmem : (fieldName, field) ∈ fieldDefs.items)
    (h : ∀ valueNode, Dict.find fieldName nodes = some valueNode →
      Settles Stop.undefined
        (coerceInputLiteral types (coerceDefaultValue types depth) variableValues
          fragmentVariableValues valueNode field.type)
        (LiteralCoercible types variableValues fragmentVariableValues valueNode
          field.type ∧
          isMissingVariable valueNode variableValues fragmentVariableValues = false)) :
    Settles Stop.undefined
      (coerceFieldNode types (coerceDefaultValue types depth) variableValues
        fragmentVariableValues nodes fieldName field)
      (NodeCoercible types variableValues fragmentVariableValues nodes fieldName
        field) := by
  unfold NodeCoercible
  by_cases hmissing : ∀ valueNode, Dict.find fieldName nodes = some valueNode →
      isMissingVariable valueNode variableValues fragmentVariableValues
  · rw [coerceFieldNode_none hmissing]
    obtain ⟨value, hvalue⟩ := hvalid.defaults _ _ _ _ _ _ htype hmem
    rw [hvalue]
    have hgiven : ∀ valueNode, Dict.find fieldName nodes = some valueNode →
        isMissingVariable valueNode variableValues fragmentVariableValues = false →
        LiteralCoercible types variableValues fragmentVariableValues valueNode
          field.type := by
      intro valueNode hfind hgiven
      rw [hmissing valueNode hfind] at hgiven
      cases hgiven
    split
    · rename_i hrequired
      apply Settles.error
      rintro ⟨hnot, _⟩
      rw [hnot hmissing] at hrequired
      cases hrequired
    · rename_i hrequired
      exact .ok ⟨fun _ => by simpa using hrequired, hgiven⟩
  · push Not at hmissing
    obtain ⟨valueNode, hfind, hmissing'⟩ := hmissing
    rw [ne_eq, Bool.not_eq_true] at hmissing'
    rw [coerceFieldNode_some hfind hmissing']
    apply (h valueNode hfind).map.congr
    simp [hfind, hmissing']

/-- Coercion returns a value for what is coercible, and else `Undefined`, also for a
variable without a value. -/
theorem coerceInputLiteral_settles (hvalid : ValidInputTypes types depth)
    (valueNode : ValueNode) (type : GraphQLType)
    (hinput : types.schema.isInputType type) :
    Settles Stop.undefined
      (coerceInputLiteral types (coerceDefaultValue types depth) variableValues
        fragmentVariableValues valueNode type)
      (LiteralCoercible types variableValues fragmentVariableValues valueNode type ∧
        isMissingVariable valueNode variableValues fragmentVariableValues = false) := by
  have hplain_iff : ∀ {valueNode type}, IsPlain valueNode →
      (LiteralCoercible types variableValues fragmentVariableValues valueNode type ∧
        isMissingVariable valueNode variableValues fragmentVariableValues = false ↔
      LiteralCoercible types variableValues fragmentVariableValues valueNode type) :=
    fun hplain => and_iff_left (isMissingVariable_of_not hplain.ne_variable)
  induction valueNode, type using inputLiteral_induction types with
  | variableNode node type =>
      have hloses : ¬ LosesLiteralEntry types variableValues fragmentVariableValues
          (.variable node) type := fun h => h.isPlain.ne_variable node rfl
      rw [coerceInputLiteral_variable, LiteralCoercible, literalConforms_variable_iff,
        isNullLiteral, isMissingVariable]
      cases getCoercedVariableValue node.name.value variableValues
          fragmentVariableValues with
      | none => exact .error (by simp)
      | some value =>
          cases value with
          | none =>
              simp only
              split
              · exact .error (by simp [*, isNullish])
              · exact .ok (by simp [*, isNullish])
          | bool | int | str | list | dict | object =>
              exact .ok (by simp [hloses, isNullish])
  | nonNullNull loc ofType =>
      rw [coerceInputLiteral]
      exact .error fun h => not_literalConforms_nonNull_null h.1.1
  | nonNull valueNode ofType hplain ih =>
      rw [coerceInputLiteral, hplain_iff hplain, literalCoercible_nonNull_iff hplain]
      · exact (ih hinput).congr (hplain_iff hplain)
      · exact hplain.ne_variable
      · exact hplain.ne_null
  | listNull loc itemType =>
      rw [coerceInputLiteral]
      exact .ok ⟨⟨.noList, fun h => h.isPlain.ne_null loc rfl⟩, rfl⟩
  | list values loc itemType ih =>
      rw [coerceInputLiteral, hplain_iff isPlain_list]
      have hitems := coerceItemNodes_settles fun itemNode hmem => ih itemNode hmem hinput
      exact hitems.bind_ok.congr literalCoercible_list_iff.symm
  | single valueNode itemType hplain hlist ih =>
      rw [coerceInputLiteral, hplain_iff hplain, literalCoercible_single_iff hplain hlist]
      · exact (ih hinput).bind_ok.congr (hplain_iff hplain)
      · exact hplain.ne_variable
      · exact hplain.ne_null
      · exact hlist
  | namedNull loc name =>
      rw [coerceInputLiteral]
      exact .ok ⟨⟨.noValue, fun h => h.isPlain.ne_null loc rfl⟩, rfl⟩
  | object name fieldDefs isOneOf description fields loc htype ih =>
      have hfields : ∀ entry ∈ fieldDefs.items, Settles Stop.undefined
          (coerceFieldNode types (coerceDefaultValue types depth) variableValues
            fragmentVariableValues (fieldNodes fields) entry.1 entry.2)
          (NodeCoercible types variableValues fragmentVariableValues (fieldNodes fields)
            entry.1 entry.2) := by
        rintro ⟨fieldName, field⟩ hmem
        exact coerceFieldNode_settles hvalid htype hmem fun valueNode hfind =>
          ih fieldName field valueNode hmem hfind
            (hvalid.hasInputFields _ _ _ _ _ _ htype hmem)
      rw [coerceInputLiteral_object htype, hplain_iff isPlain_object]
      split
      · rename_i hundefined
        apply Settles.error
        rw [literalCoercible_object_iff htype]
        intro h
        obtain ⟨node, hmem, hnode⟩ := List.any_eq_true.mp hundefined
        simp [Option.isSome_iff_ne_none.mp (h.1 node hmem)] at hnode
      · rename_i hdefined
        have hdefined : ∀ node ∈ fieldNodes fields, (fieldDefs.get node.1).isSome := by
          simpa [Option.isSome_iff_ne_none] using hdefined
        rw [literalCoercible_object_iff htype, and_iff_right hdefined]
        apply (settles_storeFields hfields []).bind
        intro coercedDict hstore
        cases isOneOf with
        | false => exact .ok (by simp)
        | true =>
            have hiff := isOneOfLiteral_iff hvalid htype hdefined hfields hstore
            split
            · rename_i h
              exact .error (by simpa [← hiff] using h)
            · rename_i h
              exact .ok (by simpa [← hiff] using h)
  | notObject name fieldDefs isOneOf description valueNode hplain htype hobject =>
      rw [coerceInputLiteral_notObject hplain htype hobject]
      exact .error fun h => not_literalConforms_notObject hplain htype hobject h.1.1
  | leaf name valueNode hplain hleaf =>
      obtain ⟨outcome, houtcome⟩ := exists_leafInputLiteral valueNode variableValues
        fragmentVariableValues hinput hleaf
      rw [coerceInputLiteral_leaf hplain hleaf, hplain_iff hplain,
        literalCoercible_leaf_iff hplain hleaf, houtcome]
      cases outcome with
      | value => exact .ok ⟨_, rfl⟩
      | undefined | graphQLError | exception => exact .error (by simp)

end ValidTypes

end GraphqlCore
