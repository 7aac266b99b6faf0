import GraphqlCore.Language.DocumentParser
import GraphqlCore.Language.ValueRoundTrip

/-!
# Nodes that can be written

The nodes of executable documents without their locations, and those nodes that the printer
writes as they are read: their names are names, their lists are not empty where there are any,
and their strings are no block strings.
-/

namespace GraphqlCore.Language

/-! ## Nodes without locations -/

def NameNode.unlocated (node : NameNode) : NameNode := { value := node.value }

def NamedTypeNode.unlocated (node : NamedTypeNode) : NamedTypeNode :=
  { name := node.name.unlocated }

def TypeNode.unlocated : TypeNode → TypeNode
  | .named node => .named node.unlocated
  | .list type _ => .list type.unlocated none
  | .nonNull type _ => .nonNull type.unlocated none

def VariableNode.unlocated (node : VariableNode) : VariableNode :=
  { name := node.name.unlocated }

def StringValueNode.unlocated (node : StringValueNode) : StringValueNode :=
  { node with loc := none }

def ArgumentNode.unlocated (node : ArgumentNode) : ArgumentNode where
  name := node.name.unlocated
  value := node.value.unlocated

def FragmentArgumentNode.unlocated (node : FragmentArgumentNode) : FragmentArgumentNode where
  name := node.name.unlocated
  value := node.value.unlocated

def DirectiveNode.unlocated (node : DirectiveNode) : DirectiveNode where
  name := node.name.unlocated
  arguments := node.arguments.map (List.map ArgumentNode.unlocated)

def unlocatedDirectives (directives : Option (List DirectiveNode)) :
    Option (List DirectiveNode) :=
  directives.map (List.map DirectiveNode.unlocated)

def FragmentSpreadNode.unlocated (node : FragmentSpreadNode) : FragmentSpreadNode where
  name := node.name.unlocated
  arguments := node.arguments.map (List.map FragmentArgumentNode.unlocated)
  directives := unlocatedDirectives node.directives

mutual

def SelectionNode.unlocated : SelectionNode → SelectionNode
  | .field ⟨fieldAlias, name, arguments, directives, none, _⟩ =>
      .field ⟨fieldAlias.map NameNode.unlocated, name.unlocated,
        arguments.map (List.map ArgumentNode.unlocated), unlocatedDirectives directives, none,
        none⟩
  | .field ⟨fieldAlias, name, arguments, directives, some selectionSet, _⟩ =>
      .field ⟨fieldAlias.map NameNode.unlocated, name.unlocated,
        arguments.map (List.map ArgumentNode.unlocated), unlocatedDirectives directives,
        some selectionSet.unlocated, none⟩
  | .fragmentSpread node => .fragmentSpread node.unlocated
  | .inlineFragment ⟨typeCondition, directives, selectionSet, _⟩ =>
      .inlineFragment ⟨typeCondition.map NamedTypeNode.unlocated, unlocatedDirectives directives,
        selectionSet.unlocated, none⟩

def SelectionSetNode.unlocated : SelectionSetNode → SelectionSetNode
  | ⟨selections, _⟩ => ⟨unlocatedSelections selections, none⟩

def unlocatedSelections : List SelectionNode → List SelectionNode
  | [] => []
  | selection :: selections => selection.unlocated :: unlocatedSelections selections

end

theorem unlocatedSelections_eq (selections : List SelectionNode) :
    unlocatedSelections selections = selections.map SelectionNode.unlocated := by
  induction selections with
  | nil => rfl
  | cons selection selections ih => rw [unlocatedSelections, ih, List.map_cons]

def VariableDefinitionNode.unlocated (node : VariableDefinitionNode) :
    VariableDefinitionNode where
  description := node.description.map StringValueNode.unlocated
  variableNode := node.variableNode.unlocated
  type := node.type.unlocated
  defaultValue := node.defaultValue.map ValueNode.unlocated
  directives := unlocatedDirectives node.directives

def OperationDefinitionNode.unlocated (node : OperationDefinitionNode) :
    OperationDefinitionNode where
  operation := node.operation
  description := node.description.map StringValueNode.unlocated
  name := node.name.map NameNode.unlocated
  variableDefinitions := node.variableDefinitions.map (List.map VariableDefinitionNode.unlocated)
  directives := unlocatedDirectives node.directives
  selectionSet := node.selectionSet.unlocated

def FragmentDefinitionNode.unlocated (node : FragmentDefinitionNode) :
    FragmentDefinitionNode where
  description := node.description.map StringValueNode.unlocated
  name := node.name.unlocated
  variableDefinitions := node.variableDefinitions.map (List.map VariableDefinitionNode.unlocated)
  typeCondition := node.typeCondition.unlocated
  directives := unlocatedDirectives node.directives
  selectionSet := node.selectionSet.unlocated

/-- The definitions of a type system keep their locations: only executable documents are
compared. -/
def DefinitionNode.unlocated : DefinitionNode → DefinitionNode
  | operation node => .operation node.unlocated
  | fragment node => .fragment node.unlocated
  | definition => definition

/-- What is compared of two documents but for the locations. -/
def DocumentNode.unlocated (node : DocumentNode) : DocumentNode :=
  { definitions := node.definitions.map DefinitionNode.unlocated }

/-! ## Nodes that can be written -/

/-- A list that is there is not empty, and all its nodes have the property. -/
def GivenNodes {α : Type} (P : α → Prop) (nodes : Option (List α)) : Prop :=
  ∀ list ∈ nodes, list ≠ [] ∧ ∀ node ∈ list, P node

section GivenNodes

variable {α : Type} {P : α → Prop} {nodes : Option (List α)}

theorem GivenNodes.ne_nil (h : GivenNodes P nodes) : ∀ list ∈ nodes, list ≠ [] :=
  fun list hlist => (h list hlist).1

theorem GivenNodes.forall_mem (h : GivenNodes P nodes) : ∀ node ∈ nodes.getD [], P node := by
  cases nodes with
  | none => exact List.forall_mem_nil P
  | some list => exact (h list rfl).2

end GivenNodes

def NameNode.Writable (node : NameNode) : Prop := IsName node.value

def NamedTypeNode.Writable (node : NamedTypeNode) : Prop := node.name.Writable

/-- A type is wrapped by Non-Null once. -/
def TypeNode.Writable : TypeNode → Prop
  | .named node => node.Writable
  | .list type _ => type.Writable
  | .nonNull (.nonNull _ _) _ => False
  | .nonNull type _ => type.Writable

def StringValueNode.Writable (node : StringValueNode) : Prop :=
  node.block = some false ∧ IsPaired node.value

def ArgumentNode.Writable (isConst : Bool) (node : ArgumentNode) : Prop :=
  node.name.Writable ∧ node.value.WritableIn isConst

def FragmentArgumentNode.Writable (node : FragmentArgumentNode) : Prop :=
  node.name.Writable ∧ node.value.WritableIn false

structure DirectiveNode.Writable (isConst : Bool) (node : DirectiveNode) : Prop where
  name : node.name.Writable
  arguments : GivenNodes (ArgumentNode.Writable isConst) node.arguments

abbrev WritableDirectives (isConst : Bool) (directives : Option (List DirectiveNode)) : Prop :=
  GivenNodes (DirectiveNode.Writable isConst) directives

/-- Without the option there are no arguments. -/
structure FragmentSpreadNode.Writable (options : ParseOptions) (node : FragmentSpreadNode) :
    Prop where
  name : node.name.Writable
  name_ne : node.name.value ≠ str "on"
  arguments : GivenNodes FragmentArgumentNode.Writable node.arguments
  experimental : options.experimentalFragmentArguments = false → node.arguments = none
  directives : WritableDirectives false node.directives

mutual

def SelectionNode.Writable (options : ParseOptions) : SelectionNode → Prop
  | .field ⟨fieldAlias, name, arguments, directives, selectionSet, _⟩ =>
      (∀ node ∈ fieldAlias, NameNode.Writable node) ∧ name.Writable ∧
        GivenNodes (ArgumentNode.Writable false) arguments ∧
        WritableDirectives false directives ∧ WritableSelectionSet? options selectionSet
  | .fragmentSpread node => node.Writable options
  | .inlineFragment ⟨typeCondition, directives, selectionSet, _⟩ =>
      (∀ node ∈ typeCondition, NamedTypeNode.Writable node) ∧
        WritableDirectives false directives ∧ selectionSet.Writable options

def WritableSelectionSet? (options : ParseOptions) : Option SelectionSetNode → Prop
  | none => True
  | some selectionSet => selectionSet.Writable options

def SelectionSetNode.Writable (options : ParseOptions) : SelectionSetNode → Prop
  | ⟨selections, _⟩ => selections ≠ [] ∧ WritableSelections options selections

def WritableSelections (options : ParseOptions) : List SelectionNode → Prop
  | [] => True
  | selection :: selections =>
      selection.Writable options ∧ WritableSelections options selections

end

def WritableDescription (description : Option StringValueNode) : Prop :=
  ∀ node ∈ description, StringValueNode.Writable node

def WritableDefault (defaultValue : Option ValueNode) : Prop :=
  ∀ value ∈ defaultValue, ValueNode.WritableIn true value

structure VariableDefinitionNode.Writable (node : VariableDefinitionNode) : Prop where
  description : WritableDescription node.description
  variableNode : node.variableNode.name.Writable
  type : node.type.Writable
  defaultValue : WritableDefault node.defaultValue
  directives : WritableDirectives true node.directives

structure OperationDefinitionNode.Writable (options : ParseOptions)
    (node : OperationDefinitionNode) : Prop where
  description : WritableDescription node.description
  name : ∀ name ∈ node.name, NameNode.Writable name
  variableDefinitions : GivenNodes VariableDefinitionNode.Writable node.variableDefinitions
  directives : WritableDirectives false node.directives
  selectionSet : node.selectionSet.Writable options

/-- Without the option there is an empty list of variables. -/
structure FragmentDefinitionNode.Writable (options : ParseOptions)
    (node : FragmentDefinitionNode) : Prop where
  description : WritableDescription node.description
  name : node.name.Writable
  name_ne : node.name.value ≠ str "on"
  variableDefinitions : if options.experimentalFragmentArguments then
    GivenNodes VariableDefinitionNode.Writable node.variableDefinitions
    else node.variableDefinitions = some []
  typeCondition : node.typeCondition.Writable
  directives : WritableDirectives false node.directives
  selectionSet : node.selectionSet.Writable options

def DefinitionNode.Writable (options : ParseOptions) : DefinitionNode → Prop
  | operation node => node.Writable options
  | fragment node => node.Writable options
  | _ => False

/-- An operation or a fragment. -/
def DefinitionNode.isExecutable : DefinitionNode → Bool
  | operation _ => true
  | fragment _ => true
  | _ => false

/-- A query that is printed without its keyword. -/
def DefinitionNode.isShorthand : DefinitionNode → Bool
  | operation ⟨.query, none, none, none, none, _, _⟩ => true
  | _ => false

end GraphqlCore.Language
