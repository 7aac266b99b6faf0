import GraphqlCore.Data.DictMerge
import GraphqlCore.Utilities.TypeInfo

/-!
# What the type information reports

At each node `TypeInfo` reports what a recursion along the path from the root computes.  The
one exception is an argument of an unknown directive, which `TypeInfo` looks up on the field
around the directive.
-/

namespace GraphqlCore.TypeTracking

open Language

/-! ## The recursion along a path -/

/-- What is known at a node. -/
structure Report where
  type : Option GraphQLType := none
  parentType : Option Text := none
  inputType : Option GraphQLType := none
  parentInputType : Option GraphQLType := none
  fieldDef : Option GraphQLField := none
  defaultValue : LocationDefault := .none
  directive : Option GraphQLDirective := none
  argument : Option GraphQLArgument := none
  enumValue : Option GraphQLEnumValue := none
  fragmentSignaturesByName : Text → Option FragmentSignature := fun _ => none
  fragmentSignature : Option FragmentSignature := none
  fragmentArgument : Option VariableDefinitionNode := none

/-- What the getters return. -/
def TypeInfo.report (info : TypeInfo) : Report where
  type := info.getType
  parentType := info.getParentType
  inputType := info.getInputType
  parentInputType := info.getParentInputType
  fieldDef := info.getFieldDef
  defaultValue := info.getDefaultValue
  directive := info.directive
  argument := info.argument
  enumValue := info.enumValue
  fragmentSignaturesByName := info.fragmentSignaturesByName
  fragmentSignature := info.fragmentSignature
  fragmentArgument := info.fragmentArgument

namespace Report

variable (schema : GraphQLSchema)

/-- An input position of that type inside the one around it. -/
def withInput (report : Report) (type : Option GraphQLType) (defaultValue : LocationDefault) :
    Report :=
  { report with
    inputType := inputOf schema type
    parentInputType := report.inputType
    defaultValue := defaultValue }

/-- What is known at a node below one for which this is known, where the owner has the
definitions of the arguments. -/
def child (report : Report) (owner : Option (Dict Text GraphQLArgument)) : Node → Report
  | .document node => { report with fragmentSignaturesByName := (getFragmentSignatures node).get }
  | .selectionSet => { report with parentType := compositeOf schema report.type }
  | .field name =>
      let fieldDef := report.parentType.bind fun parentType => schema.getField parentType name
      { report with fieldDef := fieldDef, type := outputOf schema (fieldDef.map GraphQLField.type) }
  | .directive name => { report with directive := getDirective schema name }
  | .operationDefinition operation => { report with type := rootType schema operation }
  | .fragmentSpread name =>
      { report with fragmentSignature := report.fragmentSignaturesByName name }
  | .inlineFragment typeCondition =>
      { report with type := conditionType schema report.type typeCondition }
  | .fragmentDefinition typeCondition =>
      { report with type := conditionType schema report.type (some typeCondition) }
  | .variableDefinition type =>
      { report with
        inputType := inputOf schema (Execution.typeFromAst schema type)
        parentInputType := report.inputType }
  | .fragmentArgument name =>
      let argDef : Option VariableDefinitionNode := report.fragmentSignature.bind fun signature =>
        signature.variableDefinitions.get name
      let report : Report := { report with fragmentArgument := argDef }
      report.withInput schema
        (argDef.bind fun argDef => Execution.typeFromAst schema argDef.type) .undefined
  | .argument name =>
      let argDef : Option GraphQLArgument := owner.bind fun args => args.get name
      let report : Report := { report with argument := argDef }
      report.withInput schema (argDef.map fun argDef => argDef.type) (defaultOf argDef)
  | .listValue => report.withInput schema (itemTypeOf report.inputType) .undefined
  | .objectField name =>
      let inputField := inputFieldOf schema report.inputType name
      report.withInput schema (inputField.map fun inputField => inputField.type)
        (defaultOf inputField)
  | .enumValue value => { report with enumValue := enumValueOf schema report.inputType value }
  | .variable _ => report
  | .other _ => report

/-- The definitions of the arguments that the node owns itself: those of its field or its
directive, if that is known. -/
def ownArgs (report : Report) : Node → Option (Dict Text GraphQLArgument)
  | .field _ => report.fieldDef.map GraphQLField.args
  | .directive _ => report.directive.map GraphQLDirective.args
  | _ => none

end Report

/-- One node further along a path, with the arguments of the last node. -/
def descend (schema : GraphQLSchema) (known : Report × Option (Dict Text GraphQLArgument))
    (node : Node) : Report × Option (Dict Text GraphQLArgument) :=
  let report := known.1.child schema known.2 node
  (report, report.ownArgs node)

/-- What is known at the end of a path from the root. -/
def known (schema : GraphQLSchema) (path : List Node) :
    Report × Option (Dict Text GraphQLArgument) :=
  path.foldl (descend schema) ({}, none)

/-- The type information at the end of a path from the root. -/
def enterAll (schema : GraphQLSchema) (path : List Node) : TypeInfo :=
  path.foldl (fun info node => info.enter schema node) {}

section Paths

variable {schema : GraphQLSchema} {path : List Node} {node : Node}

theorem known_concat : known schema (path ++ [node]) = descend schema (known schema path) node := by
  rw [known, List.foldl_append]
  rfl

theorem enterAll_concat :
    enterAll schema (path ++ [node]) = (enterAll schema path).enter schema node := by
  rw [enterAll, List.foldl_append]
  rfl

/-- The arguments in which `TypeInfo` looks up an argument. -/
def TypeInfo.args (info : TypeInfo) : Option (Dict Text GraphQLArgument) :=
  (info.directive.map GraphQLDirective.args).or (info.getFieldDef.map GraphQLField.args)

/-- `TypeInfo` does what the recursion does, with arguments of its own. -/
theorem report_enter (info : TypeInfo) :
    (info.enter schema node).report = info.report.child schema info.args node := by
  cases node <;> rfl

end Paths

/-! ## Which nodes are below which -/

namespace Node

/-- A node is entered only below its limit. -/
def limit : Node → ℕ
  | .document _ => 1
  | .operationDefinition _ | .fragmentDefinition _ | .inlineFragment _ | .selectionSet => 2
  | .field _ | .fragmentSpread _ | .variableDefinition _ => 2
  | .fragmentArgument _ => 3
  | .directive _ => 4
  | .argument _ => 5
  | .enumValue _ => 6
  | .listValue | .objectField _ | .variable _ | .other _ => 7

/-- The level of the nodes below a node: each slot of `TypeInfo` has one. -/
def level (node : Node) (level : ℕ) : ℕ :=
  match node with
  | .document _ => 1
  | .fragmentSpread _ => 2
  | .fragmentArgument _ => 3
  | .directive _ => 4
  | .argument _ => 5
  | .enumValue _ => 6
  | _ => level

def isArgument : Node → Bool
  | .argument _ => true
  | _ => false

def hasArguments : Node → Bool
  | .field _ => true
  | .directive _ => true
  | _ => false

end Node

mutual

/-- The nodes of the tree are below those that they can be below in a document. -/
def Fits (level : ℕ) (hasArguments : Bool) : Tree → Prop
  | .node node children =>
      level < node.limit ∧ (node.isArgument → hasArguments) ∧
        AllFit (node.level level) node.hasArguments children

def AllFit (level : ℕ) (hasArguments : Bool) : List Tree → Prop
  | [] => True
  | tree :: rest => Fits level hasArguments tree ∧ AllFit level hasArguments rest

end

theorem allFit_iff {level : ℕ} {hasArguments : Bool} {trees : List Tree} :
    AllFit level hasArguments trees ↔ ∀ tree ∈ trees, Fits level hasArguments tree := by
  induction trees with
  | nil => simp [AllFit]
  | cons tree rest ih => rw [AllFit, ih, List.forall_mem_cons]

theorem allFit_append {level : ℕ} {hasArguments : Bool} {trees trees' : List Tree} :
    AllFit level hasArguments (trees ++ trees') ↔
      AllFit level hasArguments trees ∧ AllFit level hasArguments trees' := by
  simp only [allFit_iff, List.forall_mem_append]

theorem allFit_map {α : Type} {level : ℕ} {hasArguments : Bool} {tree : α → Tree}
    {nodes : List α} (h : ∀ node ∈ nodes, Fits level hasArguments (tree node)) :
    AllFit level hasArguments (nodes.map tree) := by
  rw [allFit_iff, List.forall_mem_map]
  exact h

section Fitting

variable {level : ℕ} {hasArguments : Bool}

theorem fits_node {node : Node} {children : List Tree} (hlevel : level < node.limit)
    (hargument : node.isArgument = false)
    (h : AllFit (node.level level) node.hasArguments children) :
    Fits level hasArguments (.node node children) := by
  rw [Fits, hargument]
  exact ⟨hlevel, Bool.noConfusion, h⟩

theorem fits_name (hlevel : level < 7) (node : NameNode) :
    Fits level hasArguments (nameTree node) :=
  fits_node hlevel rfl trivial

theorem fits_namedType (hlevel : level < 7) (node : NamedTypeNode) :
    Fits level hasArguments (namedTypeTree node) :=
  fits_node hlevel rfl ⟨fits_name hlevel _, trivial⟩

theorem fits_type (hlevel : level < 7) (node : TypeNode) :
    Fits level hasArguments (typeTree node) := by
  induction node generalizing hasArguments with
  | named node => exact fits_namedType hlevel node
  | list type loc ih => exact fits_node hlevel rfl ⟨ih, trivial⟩
  | nonNull type loc ih => exact fits_node hlevel rfl ⟨ih, trivial⟩

theorem fits_variable (hlevel : level < 7) (node : VariableNode) :
    Fits level hasArguments (variableTree node) :=
  fits_node hlevel rfl ⟨fits_name hlevel _, trivial⟩

theorem fits_string (hlevel : level < 7) (node : StringValueNode) :
    Fits level hasArguments (stringTree node) :=
  fits_node hlevel rfl trivial

mutual

theorem fits_value (hlevel : level < 6) (hasArguments : Bool) :
    ∀ value, Fits level hasArguments (valueTree value)
  | .variable node => fits_variable (Nat.lt_succ_of_lt hlevel) node
  | .int _ _ => fits_node (Nat.lt_succ_of_lt hlevel) rfl trivial
  | .float _ _ => fits_node (Nat.lt_succ_of_lt hlevel) rfl trivial
  | .string node => fits_string (Nat.lt_succ_of_lt hlevel) node
  | .boolean _ _ => fits_node (Nat.lt_succ_of_lt hlevel) rfl trivial
  | .null _ => fits_node (Nat.lt_succ_of_lt hlevel) rfl trivial
  | .enum _ _ => fits_node hlevel rfl trivial
  | .list values _ => fits_node (Nat.lt_succ_of_lt hlevel) rfl (allFit_values hlevel false values)
  | .object fields _ =>
      fits_node (Nat.lt_succ_of_lt hlevel) rfl (allFit_fields hlevel false fields)

theorem allFit_values (hlevel : level < 6) (hasArguments : Bool) :
    ∀ values, AllFit level hasArguments (valueTrees values)
  | [] => trivial
  | value :: rest => ⟨fits_value hlevel hasArguments value, allFit_values hlevel hasArguments rest⟩

theorem allFit_fields (hlevel : level < 6) (hasArguments : Bool) :
    ∀ fields, AllFit level hasArguments (fieldTrees fields)
  | [] => trivial
  | ⟨name, value, _⟩ :: rest =>
      ⟨fits_node (Nat.lt_succ_of_lt hlevel) rfl
          ⟨fits_name (Nat.lt_succ_of_lt hlevel) name, fits_value hlevel false value, trivial⟩,
        allFit_fields hlevel hasArguments rest⟩

end

theorem fits_argument (hlevel : level < 5) (node : ArgumentNode) :
    Fits level true (argumentTree node) := by
  rw [argumentTree, Fits]
  exact ⟨hlevel, fun _ => rfl, fits_name (by decide : 5 < 7) _,
    fits_value (by decide : 5 < 6) false _, trivial⟩

theorem fits_fragmentArgument (hlevel : level < 3) (node : FragmentArgumentNode) :
    Fits level hasArguments (fragmentArgumentTree node) := by
  refine fits_node hlevel rfl ?_
  exact ⟨fits_name (by decide : 3 < 7) _, fits_value (by decide : 3 < 6) false _, trivial⟩

theorem allFit_list {α : Type} {tree : α → Tree} (h : ∀ node, Fits level hasArguments (tree node))
    (nodes : Option (List α)) : AllFit level hasArguments (listTrees tree nodes) :=
  allFit_map fun node _ => h node

theorem allFit_option {α : Type} {tree : α → Tree}
    (h : ∀ node, Fits level hasArguments (tree node)) (node : Option α) :
    AllFit level hasArguments (node.toList.map tree) :=
  allFit_map fun node _ => h node

theorem fits_directive (hlevel : level < 4) (node : DirectiveNode) :
    Fits level hasArguments (directiveTree node) := by
  refine fits_node hlevel rfl ?_
  exact ⟨fits_name (by decide : 4 < 7) _, allFit_list (fits_argument (by decide : 4 < 5)) _⟩

theorem allFit_directives (hlevel : level < 4) (nodes : Option (List DirectiveNode)) :
    AllFit level hasArguments (directiveTrees nodes) :=
  allFit_list (fits_directive hlevel) nodes

theorem fits_spread (hlevel : level < 2) (node : FragmentSpreadNode) :
    Fits level hasArguments (spreadTree node) := by
  refine fits_node hlevel rfl ⟨fits_name (by decide : 2 < 7) _, allFit_append.mpr ⟨?_, ?_⟩⟩
  · exact allFit_list (fits_fragmentArgument (by decide : 2 < 3)) _
  · exact allFit_directives (by decide : 2 < 4) _

mutual

theorem fits_selection (hlevel : level < 2) (hasArguments : Bool) :
    ∀ selection, Fits level hasArguments (selectionTree selection)
  | .field ⟨_, _, _, _, selectionSet, _⟩ => by
      refine fits_node hlevel rfl ?_
      simp only [allFit_append]
      refine ⟨⟨⟨⟨?_, ?_⟩, ?_⟩, ?_⟩, ?_⟩
      · exact allFit_option (fits_name (Nat.lt_of_lt_of_le hlevel (by decide))) _
      · exact ⟨fits_name (Nat.lt_of_lt_of_le hlevel (by decide)) _, trivial⟩
      · exact allFit_list (fits_argument (Nat.lt_of_lt_of_le hlevel (by decide))) _
      · exact allFit_directives (Nat.lt_of_lt_of_le hlevel (by decide)) _
      · exact allFit_subselections hlevel true selectionSet
  | .fragmentSpread node => fits_spread hlevel node
  | .inlineFragment ⟨_, _, selectionSet, _⟩ => by
      refine fits_node hlevel rfl ?_
      simp only [allFit_append]
      refine ⟨⟨?_, ?_⟩, ?_⟩
      · exact allFit_option (fits_namedType (Nat.lt_of_lt_of_le hlevel (by decide))) _
      · exact allFit_directives (Nat.lt_of_lt_of_le hlevel (by decide)) _
      · exact ⟨fits_selectionSet hlevel false selectionSet, trivial⟩

theorem allFit_selections (hlevel : level < 2) (hasArguments : Bool) :
    ∀ selections, AllFit level hasArguments (selectionTrees selections)
  | [] => trivial
  | selection :: rest =>
      ⟨fits_selection hlevel hasArguments selection, allFit_selections hlevel hasArguments rest⟩

theorem fits_selectionSet (hlevel : level < 2) (hasArguments : Bool) :
    ∀ selectionSet, Fits level hasArguments (selectionSetTree selectionSet)
  | ⟨selections, _⟩ => fits_node hlevel rfl (allFit_selections hlevel false selections)

theorem allFit_subselections (hlevel : level < 2) (hasArguments : Bool) :
    ∀ selectionSet, AllFit level hasArguments (subselectionTrees selectionSet)
  | none => trivial
  | some selectionSet => ⟨fits_selectionSet hlevel hasArguments selectionSet, trivial⟩

end

theorem fits_variableDefinition (hlevel : level < 2) (node : VariableDefinitionNode) :
    Fits level hasArguments (variableDefinitionTree node) := by
  refine fits_node hlevel rfl ?_
  simp only [allFit_append]
  refine ⟨⟨⟨?_, ?_⟩, ?_⟩, ?_⟩
  · exact allFit_option (fits_string (Nat.lt_of_lt_of_le hlevel (by decide))) _
  · exact ⟨fits_variable (Nat.lt_of_lt_of_le hlevel (by decide)) _,
      fits_type (Nat.lt_of_lt_of_le hlevel (by decide)) _, trivial⟩
  · exact allFit_option (fits_value (Nat.lt_of_lt_of_le hlevel (by decide)) false) _
  · exact allFit_directives (Nat.lt_of_lt_of_le hlevel (by decide)) _

theorem fits_operation (hlevel : level < 2) (node : OperationDefinitionNode) :
    Fits level hasArguments (operationTree node) := by
  refine fits_node hlevel rfl ?_
  simp only [allFit_append]
  refine ⟨⟨⟨⟨?_, ?_⟩, ?_⟩, ?_⟩, ?_⟩
  · exact allFit_option (fits_string (Nat.lt_of_lt_of_le hlevel (by decide))) _
  · exact allFit_option (fits_name (Nat.lt_of_lt_of_le hlevel (by decide))) _
  · exact allFit_list (fits_variableDefinition hlevel) _
  · exact allFit_directives (Nat.lt_of_lt_of_le hlevel (by decide)) _
  · exact ⟨fits_selectionSet hlevel false _, trivial⟩

theorem fits_fragment (hlevel : level < 2) (node : FragmentDefinitionNode) :
    Fits level hasArguments (fragmentTree node) := by
  refine fits_node hlevel rfl ?_
  simp only [allFit_append]
  refine ⟨⟨⟨⟨⟨?_, ?_⟩, ?_⟩, ?_⟩, ?_⟩, ?_⟩
  · exact allFit_option (fits_string (Nat.lt_of_lt_of_le hlevel (by decide))) _
  · exact ⟨fits_name (Nat.lt_of_lt_of_le hlevel (by decide)) _, trivial⟩
  · exact allFit_list (fits_variableDefinition hlevel) _
  · exact ⟨fits_namedType (Nat.lt_of_lt_of_le hlevel (by decide)) _, trivial⟩
  · exact allFit_directives (Nat.lt_of_lt_of_le hlevel (by decide)) _
  · exact ⟨fits_selectionSet hlevel false _, trivial⟩

theorem fits_operationType (node : OperationTypeDefinitionNode) :
    Fits 1 false (operationTypeTree node) :=
  fits_node (by decide) rfl ⟨fits_namedType (by decide : 1 < 7) _, trivial⟩

/-- The parts that most definitions of the type system have. -/
theorem allFit_described (description : Option StringValueNode) (name : NameNode) :
    AllFit 1 false (descriptionTrees description ++ [nameTree name]) :=
  allFit_append.mpr
    ⟨allFit_option (fits_string (by decide : 1 < 7)) _, fits_name (by decide : 1 < 7) _, trivial⟩

theorem fits_inputValue (node : InputValueDefinitionNode) :
    Fits 1 false (inputValueTree node) := by
  refine fits_node (by decide) rfl ?_
  simp only [allFit_append]
  refine ⟨⟨⟨?_, ?_⟩, ?_⟩, ?_⟩
  · exact allFit_option (fits_string (by decide : 1 < 7)) _
  · exact ⟨fits_name (by decide : 1 < 7) _, fits_type (by decide : 1 < 7) _, trivial⟩
  · exact allFit_option (fits_value (by decide : 1 < 6) false) _
  · exact allFit_directives (by decide : 1 < 4) _

theorem fits_fieldDefinition (node : FieldDefinitionNode) :
    Fits 1 false (fieldDefinitionTree node) := by
  refine fits_node (by decide) rfl ?_
  refine allFit_append.mpr ⟨allFit_append.mpr ⟨allFit_append.mpr ⟨?_, ?_⟩, ?_⟩, ?_⟩
  · exact allFit_described _ _
  · exact allFit_list fits_inputValue _
  · exact ⟨fits_type (by decide : 1 < 7) _, trivial⟩
  · exact allFit_directives (by decide : 1 < 4) _

theorem fits_enumValueDefinition (node : EnumValueDefinitionNode) :
    Fits 1 false (enumValueDefinitionTree node) := by
  refine fits_node (by decide) rfl (allFit_append.mpr ⟨allFit_described _ _, ?_⟩)
  exact allFit_directives (by decide : 1 < 4) _

theorem fits_definition (definition : DefinitionNode) :
    Fits 1 false (definitionTree definition) := by
  have hdirectives : ∀ nodes, AllFit 1 false (directiveTrees nodes) :=
    allFit_directives (by decide : 1 < 4)
  have hname : ∀ node, AllFit 1 false [nameTree node] := fun node =>
    ⟨fits_name (by decide : 1 < 7) node, trivial⟩
  have htypes : ∀ nodes, AllFit 1 false (listTrees namedTypeTree nodes) :=
    allFit_list (fits_namedType (by decide : 1 < 7))
  have hfields : ∀ nodes, AllFit 1 false (listTrees fieldDefinitionTree nodes) :=
    allFit_list fits_fieldDefinition
  have hinputs : ∀ nodes, AllFit 1 false (listTrees inputValueTree nodes) :=
    allFit_list fits_inputValue
  have hvalues : ∀ nodes, AllFit 1 false (listTrees enumValueDefinitionTree nodes) :=
    allFit_list fits_enumValueDefinition
  have hdescription : ∀ node, AllFit 1 false (descriptionTrees node) :=
    allFit_option (fits_string (by decide : 1 < 7))
  have hlimit : ∀ kind, 1 < (Node.other kind).limit := fun kind => (by decide : 1 < 7)
  cases definition with
  | operation node => exact fits_operation (by decide) node
  | fragment node => exact fits_fragment (by decide) node
  | schema node =>
      exact fits_node (hlimit _) rfl (allFit_append.mpr ⟨allFit_append.mpr
        ⟨hdescription _, hdirectives _⟩, allFit_map fun node _ => fits_operationType node⟩)
  | scalarType node =>
      exact fits_node (hlimit _) rfl (allFit_append.mpr ⟨allFit_described _ _, hdirectives _⟩)
  | objectType node | interfaceType node =>
      exact fits_node (hlimit _) rfl (allFit_append.mpr ⟨allFit_append.mpr ⟨allFit_append.mpr
        ⟨allFit_described _ _, htypes _⟩, hdirectives _⟩, hfields _⟩)
  | unionType node =>
      exact fits_node (hlimit _) rfl (allFit_append.mpr ⟨allFit_append.mpr
        ⟨allFit_described _ _, hdirectives _⟩, htypes _⟩)
  | enumType node =>
      exact fits_node (hlimit _) rfl (allFit_append.mpr ⟨allFit_append.mpr
        ⟨allFit_described _ _, hdirectives _⟩, hvalues _⟩)
  | inputObjectType node =>
      exact fits_node (hlimit _) rfl (allFit_append.mpr ⟨allFit_append.mpr
        ⟨allFit_described _ _, hdirectives _⟩, hinputs _⟩)
  | directive node =>
      exact fits_node (hlimit _) rfl (allFit_append.mpr ⟨allFit_append.mpr ⟨allFit_append.mpr
        ⟨allFit_described _ _, hinputs _⟩, hdirectives _⟩,
          allFit_map fun node _ => fits_name (by decide : 1 < 7) node⟩)
  | schemaExtension node =>
      exact fits_node (hlimit _) rfl
        (allFit_append.mpr ⟨hdirectives _, allFit_list fits_operationType _⟩)
  | directiveExtension node | scalarTypeExtension node =>
      exact fits_node (hlimit _) rfl (allFit_append.mpr ⟨hname _, hdirectives _⟩)
  | objectTypeExtension node | interfaceTypeExtension node =>
      exact fits_node (hlimit _) rfl (allFit_append.mpr ⟨allFit_append.mpr ⟨allFit_append.mpr
        ⟨hname _, htypes _⟩, hdirectives _⟩, hfields _⟩)
  | unionTypeExtension node =>
      exact fits_node (hlimit _) rfl (allFit_append.mpr ⟨allFit_append.mpr
        ⟨hname _, hdirectives _⟩, htypes _⟩)
  | enumTypeExtension node =>
      exact fits_node (hlimit _) rfl (allFit_append.mpr ⟨allFit_append.mpr
        ⟨hname _, hdirectives _⟩, hvalues _⟩)
  | inputObjectTypeExtension node =>
      exact fits_node (hlimit _) rfl (allFit_append.mpr ⟨allFit_append.mpr
        ⟨hname _, hdirectives _⟩, hinputs _⟩)

theorem fits_document (document : DocumentNode) : Fits 0 false (documentTree document) :=
  fits_node (by decide : 0 < 1) rfl (allFit_map fun definition _ => fits_definition definition)

end Fitting

/-! ## Leaving a node -/

/-- The slots from a level on are empty. -/
structure Ready (level : ℕ) (info : TypeInfo) : Prop where
  document : level < 1 → info.fragmentSignaturesByName = fun _ => none
  fragmentSpread : level < 2 → info.fragmentSignature = none
  fragmentArgument : level < 3 → info.fragmentArgument = none
  directive : level < 4 → info.directive = none
  argument : level < 5 → info.argument = none
  enumValue : level < 6 → info.enumValue = none

section Leaving

variable {schema : GraphQLSchema} {info : TypeInfo} {level : ℕ} {node : Node}

theorem ready_start : Ready 0 {} := by
  constructor <;> exact fun _ => rfl

/-- A node fills the slot of its own level only. -/
theorem Ready.enter (h : Ready level info) (hlevel : level < node.limit) :
    Ready (node.level level) (info.enter schema node) := by
  cases node <;> simp only [Node.limit] at hlevel <;> constructor <;> intro hlt <;>
    simp only [Node.level, Nat.lt_irrefl] at hlt
  all_goals
    first
      | exact absurd hlt (by decide)
      | exact h.document (by omega)
      | exact h.fragmentSpread (by omega)
      | exact h.fragmentArgument (by omega)
      | exact h.directive (by omega)
      | exact h.argument (by omega)
      | exact h.enumValue (by omega)

/-- Leaving a node undoes what entering it did. -/
theorem leave_enter (h : Ready level info) (hlevel : level < node.limit) :
    (info.enter schema node).leave node = info := by
  obtain ⟨typeStack, parentTypeStack, inputTypeStack, fieldDefStack, defaultValueStack, directive,
    argument, enumValue, signatures, fragmentSignature, fragmentArgument⟩ := info
  cases node <;> simp only [Node.limit] at hlevel
  case document node =>
    obtain rfl : signatures = fun _ => none := h.document hlevel
    rfl
  case fragmentSpread name =>
    obtain rfl : fragmentSignature = none := h.fragmentSpread hlevel
    rfl
  case fragmentArgument name =>
    obtain rfl : fragmentArgument = none := h.fragmentArgument hlevel
    rfl
  case directive name =>
    obtain rfl : directive = none := h.directive hlevel
    rfl
  case argument name =>
    obtain rfl : argument = none := h.argument hlevel
    rfl
  case enumValue value =>
    obtain rfl : enumValue = none := h.enumValue hlevel
    rfl
  all_goals rfl

end Leaving

/-! ## Whole visits -/

/-- The trees below a tree with their ancestors. -/
inductive Below : Tree → List Node → Tree → Prop
  | here {tree} : Below tree [] tree
  | child {node children child ancestors tree} (h : child ∈ children)
      (hbelow : Below child ancestors tree) : Below (.node node children) (node :: ancestors) tree

section Visits

variable {σ : Type} {schema : GraphQLSchema} {visitor : Observer σ}

mutual

/-- The visit of a node leaves the type information as it was. -/
theorem visitNode_restores (ancestors : List Node) : ∀ (tree : Tree) (level : ℕ)
    (hasArguments : Bool) (info : TypeInfo) (state : σ), Fits level hasArguments tree →
    Ready level info → (visitNode schema visitor ancestors tree (info, state)).1 = info
  | .node node children, level, hasArguments, info, state, hfits, hready => by
      rw [Fits] at hfits
      obtain ⟨hlevel, -, hchildren⟩ := hfits
      rw [visitNode]
      have hleave : (info.enter schema node).leave node = info := leave_enter hready hlevel
      cases visitor.enter ancestors node (info.enter schema node) state with
      | mk skip state =>
          cases skip with
          | true => exact hleave
          | false =>
              have hinner := visitNodes_restores (ancestors ++ [node]) children _ _
                (info.enter schema node) state hchildren (hready.enter hlevel)
              simp only [hinner]
              exact hleave

theorem visitNodes_restores (ancestors : List Node) : ∀ (trees : List Tree) (level : ℕ)
    (hasArguments : Bool) (info : TypeInfo) (state : σ), AllFit level hasArguments trees →
    Ready level info → (visitNodes schema visitor ancestors trees (info, state)).1 = info
  | [], _, _, _, _, _, _ => rfl
  | tree :: rest, level, hasArguments, info, state, hfits, hready => by
      have hfirst := visitNode_restores ancestors tree level hasArguments info state hfits.1 hready
      rw [visitNodes]
      rcases hvisit : visitNode schema visitor ancestors tree (info, state) with ⟨info', state'⟩
      rw [hvisit] at hfirst
      obtain rfl : info' = info := hfirst
      exact visitNodes_restores ancestors rest level hasArguments info' state' hfits.2 hready

end

/-- The call is made for a node of the tree, with what was entered on the way to it. -/
def Made (schema : GraphQLSchema) (ancestors : List Node) (tree : Tree) (call : Call) : Prop :=
  ∃ path children, Below tree path (.node call.node children) ∧
    call.ancestors = ancestors ++ path ∧
    call.info = (enterAll schema call.ancestors).enter schema call.node

theorem Made.child {ancestors : List Node} {node : Node} {children : List Tree} {tree : Tree}
    {call : Call} (h : Made schema (ancestors ++ [node]) tree call) (hmem : tree ∈ children) :
    Made schema ancestors (.node node children) call := by
  obtain ⟨path, children, hbelow, hancestors, hinfo⟩ := h
  refine ⟨node :: path, children, .child hmem hbelow, ?_, hinfo⟩
  rw [hancestors, List.append_assoc]
  rfl

/-- The visit of a node that notes the calls. -/
theorem visitNode_recording (ancestors : List Node) (node : Node) (children : List Tree)
    (info : TypeInfo) (state : σ) (calls : List Call) :
    visitNode schema visitor.recording ancestors (.node node children) (info, state, calls) =
      let entered := info.enter schema node
      let answer := visitor.enter ancestors node entered state
      let calls := calls ++ [⟨false, ancestors, node, entered⟩]
      if answer.1 then (entered.leave node, answer.2, calls)
      else
        let inner := visitNodes schema visitor.recording (ancestors ++ [node]) children
          (entered, answer.2, calls)
        (inner.1.leave node, visitor.leave ancestors node inner.1 inner.2.1,
          inner.2.2 ++ [⟨true, ancestors, node, inner.1⟩]) := by
  have henter : visitor.recording.enter ancestors node (info.enter schema node) (state, calls) =
      ((visitor.enter ancestors node (info.enter schema node) state).1,
        (visitor.enter ancestors node (info.enter schema node) state).2,
        calls ++ [⟨false, ancestors, node, info.enter schema node⟩]) := rfl
  simp only [visitNode, henter]
  cases (visitor.enter ancestors node (info.enter schema node) state).1 <;> rfl

mutual

theorem visitNode_calls (ancestors : List Node) : ∀ (tree : Tree) (level : ℕ)
    (hasArguments : Bool) (state : σ) (calls : List Call), Fits level hasArguments tree →
    Ready level (enterAll schema ancestors) →
    ∀ call ∈ (visitNode schema visitor.recording ancestors tree
      (enterAll schema ancestors, state, calls)).2.2,
      call ∈ calls ∨ Made schema ancestors tree call
  | .node node children, level, hasArguments, state, calls, hfits, hready => by
      rw [Fits] at hfits
      obtain ⟨hlevel, -, hchildren⟩ := hfits
      have hinside : Ready (node.level level) (enterAll schema (ancestors ++ [node])) := by
        rw [enterAll_concat]
        exact hready.enter hlevel
      have hmade : ∀ isLeaving, Made schema ancestors (.node node children)
          ⟨isLeaving, ancestors, node, enterAll schema (ancestors ++ [node])⟩ :=
        fun _ => ⟨[], children, .here, (List.append_nil _).symm, enterAll_concat⟩
      have hentered : ∀ call ∈ calls ++
          [⟨false, ancestors, node, enterAll schema (ancestors ++ [node])⟩],
          call ∈ calls ∨ Made schema ancestors (.node node children) call := by
        intro call hcall
        refine (List.mem_append.mp hcall).imp_right fun hnew => ?_
        rw [List.mem_singleton.mp hnew]
        exact hmade false
      rw [visitNode_recording, ← enterAll_concat]
      simp only
      split
      · exact hentered
      · rcases hvisit : visitNodes schema visitor.recording (ancestors ++ [node]) children
          (enterAll schema (ancestors ++ [node]),
            (visitor.enter ancestors node (enterAll schema (ancestors ++ [node])) state).2,
            calls ++ [⟨false, ancestors, node, enterAll schema (ancestors ++ [node])⟩])
          with ⟨info, state', calls'⟩
        have hrestores := congrArg Prod.fst hvisit
        have hinner := visitNodes_calls (ancestors ++ [node]) children _ _
          (visitor.enter ancestors node (enterAll schema (ancestors ++ [node])) state).2
          (calls ++ [⟨false, ancestors, node, enterAll schema (ancestors ++ [node])⟩])
          hchildren hinside
        rw [visitNodes_restores (ancestors ++ [node]) children _ _ _ _ hchildren hinside]
          at hrestores
        rw [hvisit] at hinner
        rw [hvisit]
        obtain rfl := hrestores
        intro call hcall
        rcases List.mem_append.mp hcall with hold | hnew
        · rcases hinner call hold with hentered' | ⟨tree, hmem, hmade'⟩
          · exact hentered call hentered'
          · exact Or.inr (hmade'.child hmem)
        · rw [List.mem_singleton.mp hnew]
          exact Or.inr (hmade true)

theorem visitNodes_calls (ancestors : List Node) : ∀ (trees : List Tree) (level : ℕ)
    (hasArguments : Bool) (state : σ) (calls : List Call), AllFit level hasArguments trees →
    Ready level (enterAll schema ancestors) →
    ∀ call ∈ (visitNodes schema visitor.recording ancestors trees
      (enterAll schema ancestors, state, calls)).2.2,
      call ∈ calls ∨ ∃ tree ∈ trees, Made schema ancestors tree call
  | [], _, _, _, _, _, _ => fun call hcall => Or.inl hcall
  | tree :: rest, level, hasArguments, state, calls, hfits, hready => by
      have hfirst := visitNode_calls ancestors tree level hasArguments state calls hfits.1 hready
      rcases hvisit : visitNode schema visitor.recording ancestors tree
        (enterAll schema ancestors, state, calls) with ⟨info, state', calls'⟩
      have hrestores := congrArg Prod.fst hvisit
      rw [visitNode_restores ancestors tree _ _ _ _ hfits.1 hready] at hrestores
      obtain rfl := hrestores
      rw [hvisit] at hfirst
      rw [visitNodes, hvisit]
      intro call hcall
      rcases visitNodes_calls ancestors rest level hasArguments state' calls' hfits.2 hready call
        hcall with hold | ⟨tree', hmem, hmade⟩
      · exact (hfirst call hold).imp_right fun hmade => ⟨tree, List.mem_cons_self, hmade⟩
      · exact Or.inr ⟨tree', List.mem_cons_of_mem tree hmem, hmade⟩

end

/-- A visitor that sees every node. -/
def observing : Observer Unit where
  enter _ _ _ _ := (false, ())
  leave _ _ _ _ := ()

mutual

theorem visitNode_reaches (ancestors : List Node) : ∀ (tree : Tree) (info : TypeInfo)
    (calls : List Call),
    calls ⊆ (visitNode schema observing.recording ancestors tree (info, (), calls)).2.2 ∧
      ∀ path node children, Below tree path (.node node children) →
        ∃ info', ⟨false, ancestors ++ path, node, info'⟩ ∈
          (visitNode schema observing.recording ancestors tree (info, (), calls)).2.2
  | .node node children, info, calls => by
      obtain ⟨hsub, hreaches⟩ := visitNodes_reaches (ancestors ++ [node]) children
        (info.enter schema node) (calls ++ [⟨false, ancestors, node, info.enter schema node⟩])
      have hcalls : (visitNode schema observing.recording ancestors (.node node children)
          (info, (), calls)).2.2 = (visitNodes schema observing.recording (ancestors ++ [node])
            children (info.enter schema node, (),
              calls ++ [⟨false, ancestors, node, info.enter schema node⟩])).2.2 ++
            [⟨true, ancestors, node, (visitNodes schema observing.recording (ancestors ++ [node])
              children (info.enter schema node, (),
                calls ++ [⟨false, ancestors, node, info.enter schema node⟩])).1⟩] := by
        rw [visitNode_recording]
        rfl
      rw [hcalls]
      refine ⟨fun call hcall => List.mem_append_left _ (hsub (List.mem_append_left _ hcall)), ?_⟩
      intro path node' children' hbelow
      cases hbelow with
      | here =>
          refine ⟨info.enter schema node, List.mem_append_left _ (hsub ?_)⟩
          rw [List.append_nil]
          exact List.mem_append_right _ (List.mem_singleton_self _)
      | child hmem hbelow =>
          obtain ⟨info', hinfo⟩ := hreaches _ hmem _ _ _ hbelow
          rw [List.append_assoc] at hinfo
          exact ⟨info', List.mem_append_left _ hinfo⟩

theorem visitNodes_reaches (ancestors : List Node) : ∀ (trees : List Tree) (info : TypeInfo)
    (calls : List Call),
    calls ⊆ (visitNodes schema observing.recording ancestors trees (info, (), calls)).2.2 ∧
      ∀ tree ∈ trees, ∀ path node children, Below tree path (.node node children) →
        ∃ info', ⟨false, ancestors ++ path, node, info'⟩ ∈
          (visitNodes schema observing.recording ancestors trees (info, (), calls)).2.2
  | [], _, _ => ⟨fun _ h => h, fun _ h => nomatch h⟩
  | tree :: rest, info, calls => by
      obtain ⟨hsub, hreaches⟩ := visitNode_reaches ancestors tree info calls
      rw [visitNodes]
      rcases hvisit : visitNode schema observing.recording ancestors tree (info, (), calls) with
        ⟨info₁, state, calls₁⟩
      rw [hvisit] at hsub hreaches
      obtain ⟨hsub', hreaches'⟩ := visitNodes_reaches ancestors rest info₁ calls₁
      refine ⟨fun call hcall => hsub' (hsub hcall), List.forall_mem_cons.mpr ⟨?_, hreaches'⟩⟩
      intro path node children hbelow
      obtain ⟨info', hinfo⟩ := hreaches path node children hbelow
      exact ⟨info', hsub' hinfo⟩

end

end Visits

/-! ## The arguments of unknown directives -/

/-- The calls of a visitor in the visit of a document. -/
def callsOf {σ : Type} (schema : GraphQLSchema) (document : DocumentNode) (visitor : Observer σ)
    (state : σ) : List Call :=
  (visitDocument schema visitor.recording document (state, [])).2.2

/-- The type information follows the document: in every call it reports what the recursion
along the path computes, and after a node was left it is what it was before. -/
structure Tracks (schema : GraphQLSchema) (document : DocumentNode) : Prop where
  entered : ∀ (σ : Type) (visitor : Observer σ) (state : σ),
    ∀ call ∈ callsOf schema document visitor state,
      call.info = (enterAll schema call.ancestors).enter schema call.node
  reports : ∀ (σ : Type) (visitor : Observer σ) (state : σ),
    ∀ call ∈ callsOf schema document visitor state,
      call.info.report = (known schema (call.ancestors ++ [call.node])).1
  restores : ∀ (σ : Type) (visitor : Observer σ) (state : σ) (ancestors : List Node) (tree : Tree),
    Below (documentTree document) ancestors tree →
      (visitNode schema visitor ancestors tree (enterAll schema ancestors, state)).1 =
        enterAll schema ancestors

/-- The argument of an unknown directive is unknown to the field around it. -/
def NoStrayArgument (schema : GraphQLSchema) (document : DocumentNode) : Prop :=
  ∀ ancestors directive name children,
    Below (documentTree document) (ancestors ++ [.directive directive])
      (.node (.argument name) children) →
    getDirective schema directive = none →
    ∀ field, (known schema ancestors).1.fieldDef = some field → field.args.get name = none

theorem Below.concat {tree child : Tree} {path : List Node} {node : Node} {children : List Tree}
    (h : Below tree path (.node node children)) (hmem : child ∈ children) :
    Below tree (path ++ [node]) child := by
  generalize hlast : Tree.node node children = last at h
  induction h with
  | here =>
      subst hlast
      exact .child hmem .here
  | child hfirst _ ih => exact .child hfirst (ih hlast)

theorem child_congr {schema : GraphQLSchema} {report : Report} {node : Node}
    {owner owner' : Option (Dict Text GraphQLArgument)}
    (h : ∀ name, node = .argument name →
      (owner.bind fun args => args.get name) = owner'.bind fun args => args.get name) :
    report.child schema owner node = report.child schema owner' node := by
  cases node <;> try rfl
  case argument name => simp only [Report.child, h name rfl]

section Stray

variable {schema : GraphQLSchema} {document : DocumentNode}

/-- The type information looks up arguments where they belong. -/
theorem args_eq (hstray : NoStrayArgument schema document) {path : List Node} {level : ℕ}
    {parent : Node} {name : Text} {children : List Tree}
    (hbelow : Below (documentTree document) (path ++ [parent]) (.node (.argument name) children))
    (hparent : parent.hasArguments) (hlevel : level < parent.limit)
    (hready : Ready level (enterAll schema path))
    (hreport : (enterAll schema (path ++ [parent])).report = (known schema (path ++ [parent])).1) :
    ((enterAll schema (path ++ [parent])).args.bind fun args => args.get name) =
      (known schema (path ++ [parent])).2.bind fun args => args.get name := by
  have hdirective := congrArg Report.directive hreport
  have hfield := congrArg Report.fieldDef hreport
  have hown : (known schema (path ++ [parent])).2 =
      (known schema (path ++ [parent])).1.ownArgs parent := by
    rw [known_concat]
    rfl
  rw [hown, TypeInfo.args]
  cases parent with
  | field field =>
      have hnone : (enterAll schema (path ++ [.field field])).directive = none := by
        rw [enterAll_concat]
        exact (hready.enter hlevel).directive (Nat.lt_of_lt_of_le hlevel (by decide : 2 ≤ 4))
      rw [hnone, Report.ownArgs, ← hfield]
      rfl
  | directive directive =>
      rw [Report.ownArgs, ← hdirective]
      have hlooked : (enterAll schema (path ++ [.directive directive])).directive =
          getDirective schema directive := by
        rw [enterAll_concat]
        rfl
      have hsame : (known schema (path ++ [.directive directive])).1.fieldDef =
          (known schema path).1.fieldDef := by
        rw [known_concat]
        rfl
      rw [hsame] at hfield
      change _ = ((enterAll schema (path ++ [.directive directive])).directive.map
        GraphQLDirective.args).bind _
      cases hknown : getDirective schema directive with
      | some known =>
          rw [hlooked, hknown]
          rfl
      | none =>
          rw [hlooked, hknown]
          have hget := hstray path directive name children hbelow hknown
          rw [← hfield] at hget
          change ((enterAll schema (path ++ [.directive directive])).getFieldDef.map
            GraphQLField.args).bind _ = none
          cases hdef : (enterAll schema (path ++ [.directive directive])).getFieldDef with
          | none => rfl
          | some field => exact hget field hdef
  | _ => nomatch hparent

/-- One node further, the report is still that of the recursion. -/
theorem report_concat (hstray : NoStrayArgument schema document) {path : List Node} {level : ℕ}
    {hasArguments : Bool} {node : Node} {children : List Tree}
    (hbelow : Below (documentTree document) path (.node node children))
    (hfits : Fits level hasArguments (.node node children))
    (hready : Ready level (enterAll schema path))
    (hparent : hasArguments → ∃ above parent level', path = above ++ [parent] ∧
      parent.hasArguments ∧ level' < parent.limit ∧ Ready level' (enterAll schema above))
    (hreport : (enterAll schema path).report = (known schema path).1) :
    (enterAll schema (path ++ [node])).report = (known schema (path ++ [node])).1 := by
  rw [enterAll_concat, report_enter, known_concat, descend]
  simp only
  rw [hreport]
  refine child_congr fun name hnode => ?_
  subst hnode
  rw [Fits] at hfits
  obtain ⟨above, parent, level', rfl, howns, hlevel', hready'⟩ := hparent (hfits.2.1 rfl)
  exact args_eq hstray hbelow howns hlevel' hready' hreport

theorem report_below (hstray : NoStrayArgument schema document) {tree : Tree} {path : List Node}
    {node : Node} {children : List Tree} (hbelow : Below tree path (.node node children))
    (above : List Node) (level : ℕ) (hasArguments : Bool)
    (habove : Below (documentTree document) above tree) (hfits : Fits level hasArguments tree)
    (hready : Ready level (enterAll schema above))
    (hparent : hasArguments → ∃ above' parent level', above = above' ++ [parent] ∧
      parent.hasArguments ∧ level' < parent.limit ∧ Ready level' (enterAll schema above'))
    (hreport : (enterAll schema above).report = (known schema above).1) :
    (enterAll schema (above ++ path ++ [node])).report =
      (known schema (above ++ path ++ [node])).1 := by
  generalize hlast : Tree.node node children = last at hbelow
  induction hbelow generalizing above level hasArguments with
  | here =>
      subst hlast
      rw [List.append_nil]
      exact report_concat hstray habove hfits hready hparent hreport
  | @child first children' child path last hmem hbelow ih =>
      have hnext := report_concat hstray habove hfits hready hparent hreport
      have hfits' := hfits
      rw [Fits] at hfits'
      obtain ⟨hlevel, -, hchildren⟩ := hfits'
      have hinside : Ready (first.level level) (enterAll schema (above ++ [first])) := by
        rw [enterAll_concat]
        exact hready.enter hlevel
      have hdown := ih (above ++ [first]) (first.level level) first.hasArguments
        (habove.concat hmem) (allFit_iff.mp hchildren child hmem) hinside
        (fun howns => ⟨above, first, level, rfl, howns, hlevel, hready⟩) hnext hlast
      rw [List.append_assoc above [first] path] at hdown
      exact hdown

end Stray

theorem fits_below {schema : GraphQLSchema} {tree sub : Tree} {path : List Node}
    (hbelow : Below tree path sub) (above : List Node) (level : ℕ) (hasArguments : Bool)
    (hfits : Fits level hasArguments tree) (hready : Ready level (enterAll schema above)) :
    ∃ level' hasArguments', Fits level' hasArguments' sub ∧
      Ready level' (enterAll schema (above ++ path)) := by
  induction hbelow generalizing above level hasArguments with
  | here =>
      rw [List.append_nil]
      exact ⟨level, hasArguments, hfits, hready⟩
  | @child node children child path sub hmem hbelow ih =>
      rw [Fits] at hfits
      obtain ⟨hlevel, -, hchildren⟩ := hfits
      have hinside : Ready (node.level level) (enterAll schema (above ++ [node])) := by
        rw [enterAll_concat]
        exact hready.enter hlevel
      have hdown := ih (above ++ [node]) _ _ (allFit_iff.mp hchildren child hmem) hinside
      rw [List.append_assoc] at hdown
      exact hdown

/-- The last of the ancestors is a node of the tree. -/
theorem Below.parent {tree sub : Tree} {path : List Node} {node : Node}
    (h : Below tree (path ++ [node]) sub) : ∃ children, Below tree path (.node node children) := by
  generalize hlast : path ++ [node] = path' at h
  induction h generalizing path with
  | here => simp at hlast
  | @child first children child ancestors sub hmem hbelow ih =>
      cases path with
      | nil =>
          obtain ⟨rfl, -⟩ := List.cons.inj hlast
          exact ⟨children, .here⟩
      | cons first' path =>
          obtain ⟨rfl, hrest⟩ := List.cons.inj hlast
          obtain ⟨children', hbelow'⟩ := ih hrest
          exact ⟨children', .child hmem hbelow'⟩

theorem NoStrayArgument.tracks {schema : GraphQLSchema} {document : DocumentNode}
    (h : NoStrayArgument schema document) : Tracks schema document := by
  have hmade : ∀ (σ : Type) (visitor : Observer σ) (state : σ),
      ∀ call ∈ callsOf schema document visitor state,
        Made schema [] (documentTree document) call := by
    intro σ visitor state call hcall
    refine (visitNode_calls [] (documentTree document) 0 false state [] (fits_document document)
      ready_start call hcall).resolve_left fun hnil => nomatch hnil
  constructor
  · intro σ visitor state call hcall
    obtain ⟨path, children, -, -, hinfo⟩ := hmade σ visitor state call hcall
    exact hinfo
  · intro σ visitor state call hcall
    obtain ⟨path, children, hbelow, hancestors, hinfo⟩ := hmade σ visitor state call hcall
    have hreport := report_below h hbelow [] 0 false .here (fits_document document) ready_start
      (fun hnone => nomatch hnone) rfl
    rw [hinfo, ← enterAll_concat, hancestors]
    exact hreport
  · intro σ visitor state ancestors tree hbelow
    obtain ⟨level, hasArguments, hfits, hready⟩ := fits_below hbelow [] 0 false
      (fits_document document) (ready_start : Ready 0 (enterAll schema []))
    exact visitNode_restores ancestors tree level hasArguments _ state hfits hready

/-- A visitor that sees every node is called for each with its report. -/
theorem Tracks.report {schema : GraphQLSchema} {document : DocumentNode}
    (h : Tracks schema document) {path : List Node} {node : Node} {children : List Tree}
    (hbelow : Below (documentTree document) path (.node node children)) :
    (enterAll schema (path ++ [node])).report = (known schema (path ++ [node])).1 := by
  obtain ⟨info, hcall⟩ :=
    (visitNode_reaches [] (documentTree document) {} []).2 path node children hbelow
  have hentered := h.entered Unit observing () _ hcall
  have hreport := h.reports Unit observing () _ hcall
  rw [hentered] at hreport
  rw [enterAll_concat]
  exact hreport

/-- The type information follows a document exactly if no unknown directive has an argument
that the field around it knows. -/
theorem tracks_iff (schema : GraphQLSchema) (document : DocumentNode) :
    Tracks schema document ↔ NoStrayArgument schema document := by
  refine ⟨fun h => ?_, fun h => h.tracks⟩
  intro ancestors directive name children hbelow hunknown field hfield
  obtain ⟨children', hparent⟩ := hbelow.parent
  have hdef := congrArg Report.fieldDef (h.report hparent)
  have hargument := congrArg Report.argument (h.report hbelow)
  have hknown : (known schema (ancestors ++ [.directive directive])).1.fieldDef = some field := by
    rw [known_concat]
    exact hfield
  have hnone : (known schema (ancestors ++ [.directive directive] ++ [.argument name])).1.argument =
      none := by
    rw [known_concat, known_concat]
    simp only [descend, Report.child, Report.ownArgs, hunknown]
    rfl
  have hlooked : (enterAll schema (ancestors ++ [.directive directive])).directive = none := by
    rw [enterAll_concat]
    exact hunknown
  rw [hnone, enterAll_concat] at hargument
  rw [hknown] at hdef
  have hget : ((enterAll schema (ancestors ++ [.directive directive])).args.bind
      fun args => args.get name) = none := hargument
  have hfound : (enterAll schema (ancestors ++ [.directive directive])).getFieldDef = some field :=
    hdef
  rw [TypeInfo.args, hlooked, hfound] at hget
  exact hget

/-- `type Query { user(id: Int): Int }` -/
def userSchema : GraphQLSchema where
  typeMap := .ofList [(str "Int", .scalar), (str "Query", .object (Dict.empty.set (str "user")
    { type := .named (str "Int")
      args := Dict.empty.set (str "id") { type := .named (str "Int") } }) [])]
  queryType := some (str "Query")

/-- `{ user @unknown(id: 2) }` -/
def unknownDirective : DocumentNode where
  definitions := [.operation {
    operation := .query
    selectionSet := { loc := none, selections := [.field {
      fieldAlias := none, name := { value := str "user" }, arguments := none, loc := none
      directives := some [{
        name := { value := str "unknown" }
        arguments := some [{ name := { value := str "id" }, value := .int (str "2") none }] }]
      selectionSet := none }] } }]

/-- The argument of the unknown directive is reported as that of the field. -/
theorem unknownDirective_not_tracks : ¬∀ schema document, Tracks schema document := by
  intro h
  have hbelow : Below (documentTree unknownDirective)
      [.document unknownDirective, .operationDefinition .query, .selectionSet,
        .field (str "user"), .directive (str "unknown")]
      (argumentTree { name := { value := str "id" }, value := .int (str "2") none }) := by
    refine .child (List.mem_singleton_self _) (.child (List.mem_singleton_self _)
      (.child (List.mem_singleton_self _) ?_))
    exact .child (List.mem_cons_of_mem _ (List.mem_singleton_self _))
      (.child (List.mem_cons_of_mem _ (List.mem_singleton_self _)) .here)
  have hargument := congrArg (fun report => report.argument.isSome)
    ((h userSchema unknownDirective).report hbelow)
  exact absurd hargument (by decide)

end GraphqlCore.TypeTracking
