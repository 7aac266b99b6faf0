import GraphqlCore.Data.ListHeap
import GraphqlCore.Utilities.TypeTracking
import GraphqlCore.Validation.FragmentCycles

/-!
# Variable usages

`get_variable_usages` and `get_recursive_variable_usages` of `validation/validation_context.py`
keep the lists they return.  The second one extends the list of the first one in place with
the usages in the referenced fragments, so that the first one returns them too from then on.
-/

namespace GraphqlCore.Validation

open Language TypeTracking NoFragmentCyclesRule

deriving instance DecidableEq for VariableDefinitionNode
deriving instance DecidableEq for OperationDefinitionNode, FragmentDefinitionNode

/-! ## The usages in a definition -/

structure VariableUsage where
  node : VariableNode
  type : Option GraphQLType
  parentType : Option GraphQLType
  defaultValue : LocationDefault
  fragmentVariableDefinition : Option VariableDefinitionNode

inductive NodeWithSelectionSet
  | operation (node : OperationDefinitionNode)
  | fragment (node : FragmentDefinitionNode)
  deriving DecidableEq

namespace NodeWithSelectionSet

def tree : NodeWithSelectionSet → Tree
  | .operation node => operationTree node
  | .fragment node => fragmentTree node

def fragmentDefinition : NodeWithSelectionSet → Option FragmentDefinitionNode
  | .operation _ => none
  | .fragment node => some node

end NodeWithSelectionSet

/-- What is appended for a variable.  The default of a location is not used for the
variables in a fragment. -/
def usageOf (fragmentDefinition : Option FragmentDefinitionNode) (info : TypeInfo)
    (node : VariableNode) : VariableUsage :=
  match fragmentDefinition with
  | some fragmentDefinition =>
      let fragmentSignature := info.fragmentSignaturesByName fragmentDefinition.name.value
      let fragmentVariableDefinition := fragmentSignature.bind fun signature =>
        signature.variableDefinitions.get node.name.value
      ⟨node, info.getInputType, info.getParentInputType, .undefined, fragmentVariableDefinition⟩
  | none => ⟨node, info.getInputType, info.getParentInputType, info.getDefaultValue, none⟩

def variableUsageVisitor (fragmentDefinition : Option FragmentDefinitionNode) :
    Observer (List VariableUsage) where
  enter _ node info usages :=
    match node with
    | .variableDefinition _ => (true, usages)
    | .variable node => (false, usages ++ [usageOf fragmentDefinition info node])
    | _ => (false, usages)
  leave _ _ _ usages := usages

/-! ## The context -/

/-- A context whose type information is between two definitions. -/
structure UsageContext extends ValidationContext where
  typeInfo : TypeInfo
  ready : Ready 1 typeInfo

/-- What a context keeps.  The lists of variable usages are kept by reference. -/
structure Memory where
  typeInfo : TypeInfo
  heap : ListHeap VariableUsage := {}
  variableUsages : Dict NodeWithSelectionSet ℕ := Dict.empty
  recursiveVariableUsages : Dict OperationDefinitionNode ℕ := Dict.empty
  recursivelyReferencedFragments : Dict OperationDefinitionNode (List FragmentDefinitionNode) :=
    Dict.empty

/-- What `get_recursively_referenced_fragments` has found. -/
structure Search where
  nodesToVisit : List SelectionSetNode
  collectedNames : List Text := []
  fragments : List FragmentDefinitionNode := []

section Referenced

variable (context : ValidationContext)

def followSpread (s : Search) (spread : FragmentSpreadNode) : Search :=
  let fragName := spread.name.value
  if fragName ∈ s.collectedNames then s
  else
    let collectedNames := s.collectedNames ++ [fragName]
    match context.getFragment fragName with
    | none => { s with collectedNames }
    | some fragment =>
        { nodesToVisit := fragment.selectionSet :: s.nodesToVisit
          collectedNames
          fragments := s.fragments ++ [fragment] }

/-- Each fragment is pushed when its name is collected. -/
def Search.weight (s : Search) : ℕ :=
  unseen (fragmentNames context.document) s.collectedNames + s.nodesToVisit.length

variable {context}

theorem weight_followSpread (s : Search) (spread : FragmentSpreadNode) :
    (followSpread context s spread).weight context ≤ s.weight context := by
  rw [followSpread]
  split
  · exact Nat.le_refl _
  · rename_i hnot
    have hsub : s.collectedNames ⊆ s.collectedNames ++ [spread.name.value] :=
      List.subset_append_left _ _
    split
    · exact Nat.add_le_add_right (unseen_mono hsub) _
    · rename_i fragment hfragment
      have hlt := unseen_lt (name_mem_of_getFragment hfragment) hnot (by simp) hsub
      simp only [Search.weight, List.length_cons]
      omega

theorem weight_followSpreads (spreads : List FragmentSpreadNode) (s : Search) :
    (spreads.foldl (followSpread context) s).weight context ≤ s.weight context := by
  induction spreads generalizing s with
  | nil => exact Nat.le_refl _
  | cons spread spreads ih => exact (ih _).trans (weight_followSpread s spread)

variable (context)

/-- The loop of `get_recursively_referenced_fragments`: the nodes to visit are a stack. -/
def searchFragments (s : Search) : Search :=
  match _ : s.nodesToVisit with
  | [] => s
  | visitedNode :: rest =>
      searchFragments ((getFragmentSpreads visitedNode).foldl (followSpread context)
        { s with nodesToVisit := rest })
termination_by s.weight context
decreasing_by
  refine (weight_followSpreads _ _).trans_lt ?_
  simp [Search.weight, *]

/-- The fragments that the operation refers to, as they are computed for it first. -/
def referencedFragments (operation : OperationDefinitionNode) : List FragmentDefinitionNode :=
  (searchFragments context { nodesToVisit := [operation.selectionSet] }).fragments

end Referenced

variable (context : UsageContext)

def getRecursivelyReferencedFragments (operation : OperationDefinitionNode) (s : Memory) :
    List FragmentDefinitionNode × Memory :=
  match s.recursivelyReferencedFragments.get operation with
  | some fragments => (fragments, s)
  | none =>
      let fragments := referencedFragments context.toValidationContext operation
      (fragments, { s with recursivelyReferencedFragments :=
        s.recursivelyReferencedFragments.set operation fragments })

def getVariableUsages (node : NodeWithSelectionSet) (s : Memory) : ℕ × Memory :=
  match s.variableUsages.get node with
  | some usages => (usages, s)
  | none =>
      let (typeInfo, usages) := visitNode context.schema
        (variableUsageVisitor node.fragmentDefinition) [] node.tree (s.typeInfo, [])
      let (ref, heap) := s.heap.create usages
      (ref, { s with typeInfo, heap, variableUsages := s.variableUsages.set node ref })

/-- `usages.extend(get_variable_usages(fragment))` -/
def extendUsages (usages : ℕ) (s : Memory) (fragment : FragmentDefinitionNode) : Memory :=
  let (ref, s) := getVariableUsages context (.fragment fragment) s
  { s with heap := s.heap.extend usages (s.heap.read ref) }

def getRecursiveVariableUsages (operation : OperationDefinitionNode) (s : Memory) : ℕ × Memory :=
  match s.recursiveVariableUsages.get operation with
  | some usages => (usages, s)
  | none =>
      let (usages, s) := getVariableUsages context (.operation operation) s
      let (fragments, s) := getRecursivelyReferencedFragments context operation s
      let s := fragments.foldl (extendUsages context usages) s
      (usages, { s with recursiveVariableUsages := s.recursiveVariableUsages.set operation usages })

/-! ## Calls -/

inductive UsageCall
  | variableUsages (node : NodeWithSelectionSet)
  | recursiveVariableUsages (operation : OperationDefinitionNode)
  deriving DecidableEq

/-- The usages that a call returns, as they are at that time. -/
def UsageCall.perform (call : UsageCall) (s : Memory) : List VariableUsage × Memory :=
  let (ref, s) := match call with
    | .variableUsages node => getVariableUsages context node s
    | .recursiveVariableUsages operation => getRecursiveVariableUsages context operation s
  (s.heap.read ref, s)

/-- A context on which nothing was called yet. -/
def fresh : Memory := { typeInfo := context.typeInfo }

/-- The memory of a context after some calls. -/
def memoryAfter (calls : List UsageCall) : Memory :=
  calls.foldl (fun s call => (call.perform context s).2) (fresh context)

/-! ## Which usages there are -/

/-- The variable is used in the tree, outside of its variable definitions. -/
inductive Uses (variableNode : VariableNode) : Tree → Prop
  | here {children} : Uses variableNode (.node (.variable variableNode) children)
  | inside {node children child} (hnode : ∀ type, node ≠ .variableDefinition type)
      (h : child ∈ children) (huses : Uses variableNode child) :
      Uses variableNode (.node node children)

/-- There is a usage of the variable. -/
def Mentions (usages : List VariableUsage) (variableNode : VariableNode) : Prop :=
  ∃ usage ∈ usages, usage.node = variableNode

section Usages

variable {fragmentDefinition : Option FragmentDefinitionNode} {variableNode : VariableNode}
  {schema : GraphQLSchema}

theorem usageOf_node (info : TypeInfo) (node : VariableNode) :
    (usageOf fragmentDefinition info node).node = node := by
  cases fragmentDefinition <;> rfl

theorem mentions_nil : ¬Mentions [] variableNode := fun ⟨_, h, _⟩ => nomatch h

theorem mentions_concat {usages : List VariableUsage} {usage : VariableUsage} :
    Mentions (usages ++ [usage]) variableNode ↔
      Mentions usages variableNode ∨ usage.node = variableNode := by
  simp only [Mentions, List.mem_append, List.mem_singleton, or_and_right, exists_or,
    exists_eq_left]

theorem uses_iff {node : Node} {children : List Tree}
    (hnode : ∀ type, node ≠ .variableDefinition type) :
    Uses variableNode (.node node children) ↔
      node = .variable variableNode ∨ ∃ child ∈ children, Uses variableNode child := by
  constructor
  · rintro (_ | ⟨-, h, huses⟩)
    · exact Or.inl rfl
    · exact Or.inr ⟨_, h, huses⟩
  · rintro (rfl | ⟨child, h, huses⟩)
    · exact .here
    · exact .inside hnode h huses

theorem not_uses_variableDefinition {type : TypeNode} {children : List Tree} :
    ¬Uses variableNode (.node (.variableDefinition type) children) := by
  rintro (_ | ⟨hnode, -, -⟩)
  exact hnode type rfl

/-- Any other node is visited, and appended if it is a variable. -/
theorem visitNode_usages (ancestors : List Node) (node : Node) (children : List Tree)
    (info : TypeInfo) (usages : List VariableUsage)
    (hnode : ∀ type, node ≠ .variableDefinition type) :
    ∃ usages', (visitNode schema (variableUsageVisitor fragmentDefinition) ancestors
        (.node node children) (info, usages)).2 =
          (visitNodes schema (variableUsageVisitor fragmentDefinition) (ancestors ++ [node])
            children (info.enter schema node, usages')).2 ∧
      (Mentions usages' variableNode ↔
        Mentions usages variableNode ∨ node = .variable variableNode) := by
  cases node with
  | variableDefinition type => exact absurd rfl (hnode type)
  | «variable» own =>
      refine ⟨usages ++ [usageOf fragmentDefinition (info.enter schema (.variable own)) own],
        rfl, ?_⟩
      rw [mentions_concat, usageOf_node, Node.variable.injEq]
  | _ => exact ⟨usages, rfl, by simp⟩

mutual

/-- The visitor appends the usages of the variables in the tree. -/
theorem mentions_visitNode (ancestors : List Node) : ∀ (tree : Tree) (info : TypeInfo)
    (usages : List VariableUsage),
    Mentions (visitNode schema (variableUsageVisitor fragmentDefinition) ancestors tree
      (info, usages)).2 variableNode ↔ Mentions usages variableNode ∨ Uses variableNode tree
  | .node node children, info, usages => by
      by_cases hnode : ∀ type, node ≠ .variableDefinition type
      · obtain ⟨usages', hvisit, hmentions⟩ :=
          visitNode_usages ancestors node children info usages hnode
        rw [hvisit, mentions_visitNodes (ancestors ++ [node]) children, hmentions, uses_iff hnode,
          or_assoc]
      · obtain ⟨type, hdefinition⟩ := not_forall_not.mp hnode
        subst hdefinition
        have hskip : (visitNode schema (variableUsageVisitor fragmentDefinition) ancestors
            (.node (.variableDefinition type) children) (info, usages)).2 = usages := rfl
        rw [hskip, iff_false_intro not_uses_variableDefinition, or_false]

theorem mentions_visitNodes (ancestors : List Node) : ∀ (trees : List Tree) (info : TypeInfo)
    (usages : List VariableUsage),
    Mentions (visitNodes schema (variableUsageVisitor fragmentDefinition) ancestors trees
      (info, usages)).2 variableNode ↔
        Mentions usages variableNode ∨ ∃ tree ∈ trees, Uses variableNode tree
  | [], info, usages => by simp [visitNodes]
  | tree :: rest, info, usages => by
      rw [visitNodes, mentions_visitNodes ancestors rest, mentions_visitNode ancestors tree,
        or_assoc, List.exists_mem_cons_iff]

end

end Usages

/-! ## Referenced fragments -/

/-- The fragment is reached from the selection set by following spreads. -/
inductive Referenced (context : ValidationContext) (set : SelectionSetNode) :
    FragmentDefinitionNode → Prop
  | spread {node fragment} (h : SpreadIn node set)
      (hfragment : context.getFragment node.name.value = some fragment) :
      Referenced context set fragment
  | through {between node fragment} (hbetween : Referenced context set between)
      (h : SpreadIn node between.selectionSet)
      (hfragment : context.getFragment node.name.value = some fragment) :
      Referenced context set fragment

section Search

variable {context : ValidationContext} {set : SelectionSetNode}

/-- The selection set that is searched, or that of a fragment that was found. -/
def Search.Found (set : SelectionSetNode) (s : Search) (node : SelectionSetNode) : Prop :=
  node = set ∨ ∃ fragment ∈ s.fragments, node = fragment.selectionSet

/-- What is known in the search: the spreads of the nodes that were visited are collected,
but for those that are still to follow. -/
structure Searches (context : ValidationContext) (set : SelectionSetNode)
    (toFollow : List FragmentSpreadNode) (s : Search) : Prop where
  found : ∀ node ∈ s.nodesToVisit, s.Found set node
  referenced : ∀ fragment ∈ s.fragments, Referenced context set fragment
  leads : ∀ spread ∈ toFollow, ∀ fragment, context.getFragment spread.name.value = some fragment →
    Referenced context set fragment
  collected : ∀ name ∈ s.collectedNames, ∀ fragment, context.getFragment name = some fragment →
    fragment ∈ s.fragments
  visited : ∀ node, s.Found set node → node ∈ s.nodesToVisit ∨
    ∀ spread, SpreadIn spread node → spread ∈ toFollow ∨ spread.name.value ∈ s.collectedNames

theorem Search.Found.referenced {s : Search} {node : SelectionSetNode} (h : s.Found set node)
    (hfragments : ∀ fragment ∈ s.fragments, Referenced context set fragment)
    {spread : FragmentSpreadNode} (hspread : SpreadIn spread node)
    {fragment : FragmentDefinitionNode}
    (hfragment : context.getFragment spread.name.value = some fragment) :
    Referenced context set fragment := by
  rcases h with rfl | ⟨between, hmem, rfl⟩
  · exact .spread hspread hfragment
  · exact .through (hfragments between hmem) hspread hfragment

theorem Searches.start : Searches context set [] { nodesToVisit := [set] } where
  found := fun node hnode => Or.inl (List.mem_singleton.mp hnode)
  referenced := fun fragment h => nomatch h
  leads := fun spread h => nomatch h
  collected := fun name h => nomatch h
  visited := by
    rintro node (rfl | ⟨fragment, h, -⟩)
    · exact Or.inl (List.mem_singleton_self _)
    · nomatch h

/-- A node that is popped is visited by following its spreads. -/
theorem Searches.pop {s : Search} {visitedNode : SelectionSetNode} {rest : List SelectionSetNode}
    (h : Searches context set [] s) (hnodes : s.nodesToVisit = visitedNode :: rest) :
    Searches context set (getFragmentSpreads visitedNode) { s with nodesToVisit := rest } where
  found := fun node hnode => h.found node (hnodes ▸ List.mem_cons_of_mem _ hnode)
  referenced := h.referenced
  leads := fun spread hspread fragment hfragment =>
    (h.found visitedNode (hnodes ▸ List.mem_cons_self)).referenced h.referenced
      (mem_getFragmentSpreads.mp hspread) hfragment
  collected := h.collected
  visited := by
    intro node hfound
    rcases h.visited node hfound with hnode | hspreads
    · rw [hnodes] at hnode
      rcases List.mem_cons.mp hnode with rfl | hrest
      · exact Or.inr fun spread hspread => Or.inl (mem_getFragmentSpreads.mpr hspread)
      · exact Or.inl hrest
    · exact Or.inr fun spread hspread =>
        Or.inr ((hspreads spread hspread).resolve_left fun h => nomatch h)

theorem Searches.followSpread {s : Search} {spread : FragmentSpreadNode}
    {toFollow : List FragmentSpreadNode} (h : Searches context set (spread :: toFollow) s) :
    Searches context set toFollow (followSpread context s spread) := by
  have hleads := fun spread' hmem => h.leads spread' (List.mem_cons_of_mem spread hmem)
  have hvisited : ∀ node, s.Found set node → node ∈ s.nodesToVisit ∨ ∀ spread',
      SpreadIn spread' node → spread' ∈ toFollow ∨
        spread'.name.value ∈ s.collectedNames ++ [spread.name.value] := by
    intro node hfound
    refine (h.visited node hfound).imp_right fun hspreads spread' hspread' => ?_
    rcases hspreads spread' hspread' with hmem | hcollected
    · rcases List.mem_cons.mp hmem with rfl | hmem
      · exact Or.inr (by simp)
      · exact Or.inl hmem
    · exact Or.inr (List.mem_append_left _ hcollected)
  rw [Validation.followSpread]
  split
  · -- The name was collected before.
    rename_i hold
    refine ⟨h.found, h.referenced, hleads, h.collected, fun node hfound => ?_⟩
    refine (hvisited node hfound).imp_right fun hspreads spread' hspread' => ?_
    refine (hspreads spread' hspread').imp_right fun hmem => ?_
    rcases List.mem_append.mp hmem with hmem | hmem
    · exact hmem
    · exact List.mem_singleton.mp hmem ▸ hold
  · split
    · rename_i hnone
      refine ⟨h.found, h.referenced, hleads, fun name hname fragment hfragment => ?_, hvisited⟩
      rcases List.mem_append.mp hname with hname | hname
      · exact h.collected name hname fragment hfragment
      · rw [List.mem_singleton.mp hname, hnone] at hfragment
        cases hfragment
    · rename_i fragment hfragment
      have hfound : ∀ node, Search.Found set
          ⟨fragment.selectionSet :: s.nodesToVisit, s.collectedNames ++ [spread.name.value],
            s.fragments ++ [fragment]⟩ node ↔
          s.Found set node ∨ node = fragment.selectionSet := by
        intro node
        simp only [Search.Found, List.mem_append, List.mem_singleton, or_and_right, exists_or,
          exists_eq_left, or_assoc]
      constructor
      · intro node hnode
        rw [hfound]
        exact (List.mem_cons.mp hnode).symm.imp_left (h.found node)
      · intro fragment' hmem
        rcases List.mem_append.mp hmem with hmem | hmem
        · exact h.referenced fragment' hmem
        · rw [List.mem_singleton.mp hmem]
          exact h.leads spread List.mem_cons_self fragment hfragment
      · exact hleads
      · intro name hname fragment' hfragment'
        rcases List.mem_append.mp hname with hname | hname
        · exact List.mem_append_left _ (h.collected name hname fragment' hfragment')
        · rw [List.mem_singleton.mp hname, hfragment] at hfragment'
          exact List.mem_append_right _ (List.mem_singleton.mpr (Option.some.inj hfragment').symm)
      · intro node hnode
        rcases (hfound node).mp hnode with hnode | rfl
        · exact (hvisited node hnode).imp_left (List.mem_cons_of_mem _)
        · exact Or.inl List.mem_cons_self

theorem Searches.followSpreads {toFollow : List FragmentSpreadNode} {s : Search}
    (h : Searches context set toFollow s) :
    Searches context set [] (toFollow.foldl (Validation.followSpread context) s) := by
  induction toFollow generalizing s with
  | nil => exact h
  | cons spread toFollow ih => exact ih h.followSpread

theorem Searches.searchFragments {s : Search} (h : Searches context set [] s) :
    Searches context set [] (searchFragments context s) ∧
      (searchFragments context s).nodesToVisit = [] := by
  induction s using searchFragments.induct context with
  | case1 s hnodes =>
      rw [Validation.searchFragments, hnodes]
      exact ⟨h, hnodes⟩
  | case2 s visitedNode rest hnodes ih =>
      rw [Validation.searchFragments, hnodes]
      exact ih (h.pop hnodes).followSpreads

theorem Searches.mem_of_found {s : Search} (h : Searches context set [] s)
    (hnodes : s.nodesToVisit = []) {node : SelectionSetNode} (hfound : s.Found set node)
    {spread : FragmentSpreadNode} (hspread : SpreadIn spread node)
    {fragment : FragmentDefinitionNode}
    (hfragment : context.getFragment spread.name.value = some fragment) :
    fragment ∈ s.fragments := by
  rcases h.visited node hfound with hnode | hspreads
  · rw [hnodes] at hnode
    nomatch hnode
  · exact h.collected _ ((hspreads spread hspread).resolve_left fun h => nomatch h) _ hfragment

/-- The search finds the fragments to which spreads lead. -/
theorem mem_referencedFragments {operation : OperationDefinitionNode}
    {fragment : FragmentDefinitionNode} :
    fragment ∈ referencedFragments context operation ↔
      Referenced context operation.selectionSet fragment := by
  have hstart : Searches context operation.selectionSet []
    { nodesToVisit := [operation.selectionSet] } := .start
  obtain ⟨h, hnodes⟩ := hstart.searchFragments
  refine ⟨h.referenced fragment, fun hreferenced => ?_⟩
  induction hreferenced with
  | spread hspread hfragment => exact h.mem_of_found hnodes (Or.inl rfl) hspread hfragment
  | through _ hspread hfragment ih =>
      exact h.mem_of_found hnodes (Or.inr ⟨_, ih, rfl⟩) hspread hfragment

end Search

/-! ## What a call returns -/

variable (context : UsageContext)

/-- The usages in a node itself. -/
def ownUsages (node : NodeWithSelectionSet) : List VariableUsage :=
  (visitNode context.schema (variableUsageVisitor node.fragmentDefinition) [] node.tree
    (context.typeInfo, [])).2

/-- The usages in the fragments that an operation refers to. -/
def fragmentUsages (operation : OperationDefinitionNode) : List VariableUsage :=
  (referencedFragments context.toValidationContext operation).flatMap fun fragment =>
    ownUsages context (.fragment fragment)

/-- What is kept for a node after some calls. -/
def keptUsages (calls : List UsageCall) : NodeWithSelectionSet → List VariableUsage
  | .operation operation => ownUsages context (.operation operation) ++
      if .recursiveVariableUsages operation ∈ calls then fragmentUsages context operation else []
  | .fragment fragment => ownUsages context (.fragment fragment)

/-- The memory holds that content. -/
structure Holds (content : NodeWithSelectionSet → List VariableUsage) (s : Memory) : Prop where
  typeInfo : s.typeInfo = context.typeInfo
  owns : s.heap.Owns s.variableUsages content
  absent : ∀ node, s.variableUsages.get node = none → content node = ownUsages context node
  shared : ∀ operation ref, s.recursiveVariableUsages.get operation = some ref →
    s.variableUsages.get (.operation operation) = some ref
  referenced : ∀ operation fragments,
    s.recursivelyReferencedFragments.get operation = some fragments →
      fragments = referencedFragments context.toValidationContext operation

section Results

variable {context} {content : NodeWithSelectionSet → List VariableUsage} {s : Memory}

theorem fits_tree (node : NodeWithSelectionSet) : Fits 1 false node.tree := by
  cases node with
  | operation node => exact fits_operation (by decide) node
  | fragment node => exact fits_fragment (by decide) node

theorem visitNode_typeInfo (node : NodeWithSelectionSet) :
    visitNode context.schema (variableUsageVisitor node.fragmentDefinition) [] node.tree
      (context.typeInfo, []) = (context.typeInfo, ownUsages context node) :=
  Prod.ext (visitNode_restores [] node.tree 1 false context.typeInfo [] (fits_tree node)
    context.ready) rfl

/-- `get_variable_usages` returns the list that is kept for the node. -/
theorem Holds.getVariableUsages (h : Holds context content s) (node : NodeWithSelectionSet) :
    ∃ ref s', getVariableUsages context node s = (ref, s') ∧ Holds context content s' ∧
      s'.variableUsages.get node = some ref ∧
      (∀ node' ref', s.variableUsages.get node' = some ref' →
        s'.variableUsages.get node' = some ref') ∧
      s'.recursiveVariableUsages = s.recursiveVariableUsages := by
  rw [Validation.getVariableUsages]
  cases hget : s.variableUsages.get node with
  | some ref => exact ⟨ref, s, rfl, h, hget, fun _ _ h => h, rfl⟩
  | none =>
      have hcontent : ownUsages context node = content node := (h.absent node hget).symm
      have hkeeps : ∀ node' ref', s.variableUsages.get node' = some ref' →
          (s.variableUsages.set node (s.heap.create (content node)).1).get node' = some ref' := by
        intro node' ref' hget'
        rw [Dict.get_set, if_neg, hget']
        rintro rfl
        rw [hget] at hget'
        nomatch hget'
      refine ⟨_, _, rfl, ?_, Dict.get_set_self _ _ _, ?_, rfl⟩
      · rw [h.typeInfo, visitNode_typeInfo, hcontent]
        refine ⟨rfl, h.owns.create, fun node' hnone => h.absent node' ?_, ?_, h.referenced⟩
        · by_contra hsome
          obtain ⟨ref', hget'⟩ := Option.ne_none_iff_exists'.mp hsome
          nomatch (hkeeps node' ref' hget').symm.trans hnone
        · exact fun operation ref href => hkeeps _ _ (h.shared operation ref href)
      · rw [h.typeInfo, visitNode_typeInfo, hcontent]
        exact hkeeps

/-- The list of an operation is extended in place with the usages in a fragment. -/
theorem Holds.extendUsages (h : Holds context content s) {operation : OperationDefinitionNode}
    {ref : ℕ} (href : s.variableUsages.get (.operation operation) = some ref)
    (fragment : FragmentDefinitionNode)
    (hfragment : content (.fragment fragment) = ownUsages context (.fragment fragment)) :
    ∃ s', Validation.extendUsages context ref s fragment = s' ∧
      Holds context (Function.update content (.operation operation)
        (content (.operation operation) ++ ownUsages context (.fragment fragment))) s' ∧
      s'.variableUsages.get (.operation operation) = some ref ∧
      s'.recursiveVariableUsages = s.recursiveVariableUsages := by
  obtain ⟨ref', s', hcall, hs', hget', hkeeps, hrecursive⟩ :=
    h.getVariableUsages (.fragment fragment)
  have href' := hkeeps _ _ href
  refine ⟨_, rfl, ?_⟩
  rw [Validation.extendUsages, hcall]
  dsimp only
  rw [hs'.owns.stored _ _ hget', hfragment]
  refine ⟨⟨hs'.typeInfo, hs'.owns.extend href' _, fun node hnone => ?_, hs'.shared,
    hs'.referenced⟩, href', hrecursive⟩
  rw [Function.update_of_ne, hs'.absent node hnone]
  rintro rfl
  nomatch href'.symm.trans hnone

theorem Holds.extendAll {operation : OperationDefinitionNode} {ref : ℕ}
    (fragments : List FragmentDefinitionNode) (own : List VariableUsage) (s : Memory)
    (content : NodeWithSelectionSet → List VariableUsage)
    (h : Holds context content s) (hown : content (.operation operation) = own)
    (href : s.variableUsages.get (.operation operation) = some ref)
    (hfragments : ∀ fragment,
      content (.fragment fragment) = ownUsages context (.fragment fragment)) :
    ∃ s', fragments.foldl (Validation.extendUsages context ref) s = s' ∧
      Holds context (Function.update content (.operation operation) (own ++
        fragments.flatMap fun fragment => ownUsages context (.fragment fragment))) s' ∧
      s'.variableUsages.get (.operation operation) = some ref ∧
      s'.recursiveVariableUsages = s.recursiveVariableUsages := by
  induction fragments generalizing own s content with
  | nil =>
      refine ⟨s, rfl, ?_, href, rfl⟩
      rw [List.flatMap_nil, List.append_nil, ← hown, Function.update_eq_self]
      exact h
  | cons fragment fragments ih =>
      obtain ⟨s₁, hfirst, h₁, href₁, hrecursive₁⟩ :=
        h.extendUsages href fragment (hfragments fragment)
      obtain ⟨s₂, hrest, h₂, href₂, hrecursive₂⟩ := ih _ s₁ _ h₁ (Function.update_self _ _ _) href₁
        fun fragment' => by rw [Function.update_of_ne NodeWithSelectionSet.noConfusion, hfragments]
      refine ⟨s₂, ?_, ?_, href₂, hrecursive₂.trans hrecursive₁⟩
      · rw [List.foldl_cons, hfirst, hrest]
      · rw [Function.update_idem, hown, List.append_assoc] at h₂
        exact h₂

theorem Holds.getRecursivelyReferencedFragments (h : Holds context content s)
    (operation : OperationDefinitionNode) :
    ∃ s', getRecursivelyReferencedFragments context operation s =
        (referencedFragments context.toValidationContext operation, s') ∧
      Holds context content s' ∧ s'.variableUsages = s.variableUsages ∧
      s'.recursiveVariableUsages = s.recursiveVariableUsages := by
  rw [Validation.getRecursivelyReferencedFragments]
  cases hget : s.recursivelyReferencedFragments.get operation with
  | some fragments =>
      rw [h.referenced operation fragments hget]
      exact ⟨s, rfl, h, rfl, rfl⟩
  | none =>
      refine ⟨_, rfl, ⟨h.typeInfo, h.owns, h.absent, h.shared, ?_⟩, rfl, rfl⟩
      intro operation' fragments hget'
      rw [Dict.get_set] at hget'
      split at hget'
      · rename_i heq
        rw [heq, Option.some.inj hget']
      · exact h.referenced operation' fragments hget'

/-- `get_recursive_variable_usages` returns the list of the operation with the usages in the
fragments, and leaves it so. -/
theorem Holds.getRecursiveVariableUsages (h : Holds context content s)
    (operation : OperationDefinitionNode)
    (hfragments : ∀ fragment,
      content (.fragment fragment) = ownUsages context (.fragment fragment))
    (hnew : s.recursiveVariableUsages.get operation = none →
      content (.operation operation) = ownUsages context (.operation operation))
    (hdone : s.recursiveVariableUsages.get operation ≠ none → content (.operation operation) =
      ownUsages context (.operation operation) ++ fragmentUsages context operation) :
    ∃ ref s', Validation.getRecursiveVariableUsages context operation s = (ref, s') ∧
      Holds context (Function.update content (.operation operation)
        (ownUsages context (.operation operation) ++ fragmentUsages context operation)) s' ∧
      s'.variableUsages.get (.operation operation) = some ref ∧
      ∀ operation', s'.recursiveVariableUsages.get operation' ≠ none ↔
        s.recursiveVariableUsages.get operation' ≠ none ∨ operation' = operation := by
  rw [Validation.getRecursiveVariableUsages]
  cases hget : s.recursiveVariableUsages.get operation with
  | some ref =>
      have hsome : s.recursiveVariableUsages.get operation ≠ none := by simp [hget]
      refine ⟨ref, s, rfl, ?_, h.shared operation ref hget, fun operation' => ⟨Or.inl, ?_⟩⟩
      · rw [← hdone hsome, Function.update_eq_self]
        exact h
      · rintro (hother | rfl)
        · exact hother
        · exact hsome
  | none =>
      obtain ⟨ref, s₁, hcall, h₁, href, -, hrecursive₁⟩ :=
        h.getVariableUsages (.operation operation)
      obtain ⟨s₂, hreferenced, h₂, husages, hrecursive₂⟩ :=
        h₁.getRecursivelyReferencedFragments operation
      obtain ⟨s₃, hextend, h₃, href₃, hrecursive₃⟩ := Holds.extendAll
        (referencedFragments context.toValidationContext operation) _ s₂ content h₂
        (hnew hget) (husages ▸ href) hfragments
      have hrecursive : s₃.recursiveVariableUsages = s.recursiveVariableUsages :=
        hrecursive₃.trans (hrecursive₂.trans hrecursive₁)
      refine ⟨ref, { s₃ with recursiveVariableUsages :=
        s₃.recursiveVariableUsages.set operation ref }, ?_, ?_, href₃, fun operation' => ?_⟩
      · simp only [hcall, hreferenced, hextend]
      · refine ⟨h₃.typeInfo, h₃.owns, h₃.absent, fun operation' ref' hget' => ?_, h₃.referenced⟩
        rw [Dict.get_set] at hget'
        split at hget'
        · rename_i heq
          obtain rfl := heq
          obtain rfl := Option.some.inj hget'
          exact href₃
        · exact h₃.shared operation' ref' hget'
      · rw [hrecursive, Dict.get_set]
        by_cases heq : operation' = operation
        · simp [heq]
        · rw [if_neg heq, or_iff_left heq]

/-- The memory after those calls. -/
structure Remembers (context : UsageContext) (calls : List UsageCall) (s : Memory) : Prop where
  holds : Holds context (keptUsages context calls) s
  recursive : ∀ operation, s.recursiveVariableUsages.get operation ≠ none ↔
    .recursiveVariableUsages operation ∈ calls

/-- What a call returns after other calls. -/
def resultOf (context : UsageContext) (calls : List UsageCall) :
    UsageCall → List VariableUsage
  | .variableUsages node => keptUsages context calls node
  | .recursiveVariableUsages operation =>
      ownUsages context (.operation operation) ++ fragmentUsages context operation

theorem keptUsages_variableUsages (calls : List UsageCall) (node : NodeWithSelectionSet) :
    keptUsages context (calls ++ [.variableUsages node]) = keptUsages context calls := by
  funext node'
  cases node' <;> simp [keptUsages]

theorem keptUsages_recursiveVariableUsages (calls : List UsageCall)
    (operation : OperationDefinitionNode) :
    keptUsages context (calls ++ [.recursiveVariableUsages operation]) =
      Function.update (keptUsages context calls) (.operation operation)
        (ownUsages context (.operation operation) ++ fragmentUsages context operation) := by
  funext node'
  cases node' with
  | operation operation' =>
      by_cases heq : operation' = operation
      · subst heq
        simp [keptUsages]
      · simp [keptUsages, heq]
  | fragment fragment => simp [keptUsages]

theorem remembers_fresh : Remembers context [] (fresh context) where
  holds :=
    { typeInfo := rfl
      owns := ListHeap.Owns.empty _ _
      absent := fun node _ => by cases node <;> simp [keptUsages]
      shared := fun _ _ h => nomatch h
      referenced := fun _ _ h => nomatch h }
  recursive := fun operation => by simp [fresh]

/-- A call returns its result, and what it changes is remembered. -/
theorem Remembers.perform {calls : List UsageCall} (h : Remembers context calls s)
    (call : UsageCall) :
    (call.perform context s).1 = resultOf context calls call ∧
      Remembers context (calls ++ [call]) (call.perform context s).2 := by
  cases call with
  | variableUsages node =>
      obtain ⟨ref, s', hcall, hs', hget, -, hrecursive⟩ := h.holds.getVariableUsages node
      simp only [UsageCall.perform, hcall]
      refine ⟨hs'.owns.stored _ _ hget, ?_, fun operation => ?_⟩
      · rw [keptUsages_variableUsages]
        exact hs'
      · rw [hrecursive, h.recursive]
        simp
  | recursiveVariableUsages operation =>
      obtain ⟨ref, s', hcall, hs', hget, hrecursive⟩ :=
        h.holds.getRecursiveVariableUsages operation (fun _ => rfl)
          (fun hnone => by
            have hnot : .recursiveVariableUsages operation ∉ calls := fun hmem =>
              (h.recursive operation).mpr hmem hnone
            simp [keptUsages, hnot])
          (fun hsome => by simp [keptUsages, (h.recursive operation).mp hsome])
      simp only [UsageCall.perform, hcall]
      refine ⟨(hs'.owns.stored _ _ hget).trans (Function.update_self _ _ _), ?_,
        fun operation' => ?_⟩
      · rw [keptUsages_recursiveVariableUsages]
        exact hs'
      · rw [hrecursive, h.recursive]
        simp

theorem remembers_memoryAfter (calls : List UsageCall) :
    Remembers context calls (memoryAfter context calls) := by
  induction calls using List.reverseRecOn with
  | nil => exact remembers_fresh
  | append_singleton calls call ih =>
      rw [memoryAfter, List.foldl_append]
      exact (ih.perform call).2

end Results

/-! ## Calls in any order -/

/-- Every call returns what it returns on a fresh context, and the usages of a node are
inside the node. -/
structure StaysIntact (calls : List UsageCall) : Prop where
  fresh : ∀ before call after, calls = before ++ call :: after →
    (call.perform context (memoryAfter context before)).1 =
      (call.perform context (fresh context)).1
  inside : ∀ before node after, calls = before ++ .variableUsages node :: after →
    ∀ usage ∈ (UsageCall.perform context (.variableUsages node) (memoryAfter context before)).1,
      Uses usage.node node.tree

/-- The usages of an operation are not asked for after its recursive usages, if a fragment
that it refers to uses a variable. -/
def NoLateCall (calls : List UsageCall) : Prop :=
  ∀ before operation after, calls = before ++ .variableUsages (.operation operation) :: after →
    .recursiveVariableUsages operation ∈ before →
      ∀ fragment, Referenced context.toValidationContext operation.selectionSet fragment →
        ∀ variableNode, ¬Uses variableNode (fragmentTree fragment)

variable {context}

theorem mentions_ownUsages (node : NodeWithSelectionSet) (variableNode : VariableNode) :
    Mentions (ownUsages context node) variableNode ↔ Uses variableNode node.tree := by
  rw [ownUsages, mentions_visitNode, iff_false_intro mentions_nil, false_or]

theorem ownUsages_eq_nil_iff {node : NodeWithSelectionSet} :
    ownUsages context node = [] ↔ ∀ variableNode, ¬Uses variableNode node.tree := by
  rw [List.eq_nil_iff_forall_not_mem]
  constructor
  · intro h variableNode huses
    obtain ⟨usage, hmem, -⟩ := (mentions_ownUsages node variableNode).mpr huses
    exact h usage hmem
  · intro h usage hmem
    exact h usage.node ((mentions_ownUsages node usage.node).mp ⟨usage, hmem, rfl⟩)

theorem fragmentUsages_eq_nil_iff {operation : OperationDefinitionNode} :
    fragmentUsages context operation = [] ↔
      ∀ fragment, Referenced context.toValidationContext operation.selectionSet fragment →
        ∀ variableNode, ¬Uses variableNode (fragmentTree fragment) := by
  simp only [fragmentUsages, List.flatMap_eq_nil_iff, mem_referencedFragments,
    ownUsages_eq_nil_iff, NodeWithSelectionSet.tree]

theorem perform_memoryAfter (calls : List UsageCall) (call : UsageCall) :
    (call.perform context (memoryAfter context calls)).1 = resultOf context calls call :=
  ((remembers_memoryAfter calls).perform call).1

theorem perform_fresh (call : UsageCall) :
    (call.perform context (fresh context)).1 = resultOf context [] call :=
  perform_memoryAfter [] call

theorem resultOf_fresh_variableUsages (node : NodeWithSelectionSet) :
    resultOf context [] (.variableUsages node) = ownUsages context node := by
  cases node <;> simp [resultOf, keptUsages]

/-- The result of a call is that on a fresh context unless the list of an operation was
extended by something. -/
theorem resultOf_eq_fresh_iff (calls : List UsageCall) (call : UsageCall) :
    resultOf context calls call = resultOf context [] call ↔
      ∀ operation, call = .variableUsages (.operation operation) →
        .recursiveVariableUsages operation ∈ calls → fragmentUsages context operation = [] := by
  cases call with
  | recursiveVariableUsages operation => simp [resultOf]
  | variableUsages node =>
      rw [resultOf_fresh_variableUsages]
      cases node with
      | fragment fragment => simp [resultOf, keptUsages]
      | operation operation =>
          by_cases hmem : .recursiveVariableUsages operation ∈ calls
          · simp [resultOf, keptUsages, hmem]
          · simp [resultOf, keptUsages, hmem]

/-- The kept usages stay intact exactly if no operation is asked for its own usages after its
list was extended. -/
theorem staysIntact_iff (calls : List UsageCall) :
    StaysIntact context calls ↔ NoLateCall context calls := by
  have hiff : (∀ before call after, calls = before ++ call :: after →
      (call.perform context (memoryAfter context before)).1 =
        (call.perform context (Validation.fresh context)).1) ↔ NoLateCall context calls := by
    simp only [perform_memoryAfter, perform_fresh, resultOf_eq_fresh_iff, fragmentUsages_eq_nil_iff]
    constructor
    · intro h before operation after hcalls
      exact h before _ after hcalls operation rfl
    · rintro h before call after hcalls operation rfl
      exact h before operation after hcalls
  refine ⟨fun h => hiff.mp h.fresh, fun h => ⟨hiff.mpr h, ?_⟩⟩
  intro before node after hcalls usage husage
  rw [hiff.mpr h before _ after hcalls, perform_fresh, resultOf_fresh_variableUsages] at husage
  exact (mentions_ownUsages node usage.node).mp ⟨usage, husage, rfl⟩

/-- `query ($id: Int) { ...F }` -/
def spreadingQuery : OperationDefinitionNode where
  operation := .query
  variableDefinitions := some [{
    variableNode := { name := { value := str "id" } }
    type := .named { name := { value := str "Int" } } }]
  selectionSet := ⟨[.fragmentSpread { name := { value := str "F" } }], none⟩

/-- `fragment F on Query { user(id: $id) }` -/
def userFragment : FragmentDefinitionNode where
  name := { value := str "F" }
  typeCondition := { name := { value := str "Query" } }
  selectionSet := ⟨[.field ⟨none, { value := str "user" },
    some [⟨{ value := str "id" }, .variable { name := { value := str "id" } }, none⟩],
    none, none, none⟩], none⟩

def userContext : UsageContext where
  schema := userSchema
  document := { definitions := [.operation spreadingQuery, .fragment userFragment] }
  typeInfo := {}
  ready := by constructor <;> exact fun _ => rfl

/-- After the recursive usages of the query, the variable in the fragment is among the usages
in the query itself. -/
theorem userContext_not_staysIntact :
    ¬∀ (context : UsageContext) (calls : List UsageCall), StaysIntact context calls := by
  intro h
  have hfresh := (h userContext [.recursiveVariableUsages spreadingQuery,
    .variableUsages (.operation spreadingQuery)]).fresh
      [.recursiveVariableUsages spreadingQuery] _ [] rfl
  rw [perform_memoryAfter, perform_fresh, resultOf_eq_fresh_iff] at hfresh
  have hnone := fragmentUsages_eq_nil_iff.mp
    (hfresh spreadingQuery rfl (List.mem_singleton_self _))
  have hreferenced : Referenced userContext.toValidationContext spreadingQuery.selectionSet
      userFragment :=
    .spread (.own (List.mem_singleton_self _)) rfl
  refine hnone userFragment hreferenced { name := { value := str "id" } } ?_
  refine .inside (fun _ => Node.noConfusion)
    (List.mem_append_right _ (List.mem_singleton_self _)) ?_
  refine .inside (fun _ => Node.noConfusion) (List.mem_singleton_self _) ?_
  refine .inside (fun _ => Node.noConfusion) (List.mem_cons_of_mem _ (List.mem_singleton_self _)) ?_
  refine .inside (fun _ => Node.noConfusion) (List.mem_cons_of_mem _ (List.mem_singleton_self _)) ?_
  exact .here

end GraphqlCore.Validation
