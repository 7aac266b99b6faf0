import GraphqlCore.Data.Collecting
import GraphqlCore.Utilities.TypeTracking
import GraphqlCore.Validation.FragmentCycles

/-!
# Separating operations

The functions of `utilities/separate_operations.py`.  The definitions of a document are
different objects, so that they are told apart by their positions.
-/

namespace GraphqlCore.Separation

open Collecting Language TypeTracking
open Validation.NoFragmentCyclesRule (SpreadIn)

/-! ## Dependencies -/

/-- A visitor with a method for fragment spreads only. -/
structure DependencyCollector where
  dependencies : List Text := []

def DependencyCollector.enter (collector : DependencyCollector) : Node → DependencyCollector
  | .fragmentSpread name => { dependencies := collector.dependencies ++ [name] }
  | _ => collector

mutual

/-- Visit a node and then those below it. -/
def visit (collector : DependencyCollector) : Tree → DependencyCollector
  | .node node children => visitAll (collector.enter node) children

def visitAll (collector : DependencyCollector) : List Tree → DependencyCollector
  | [] => collector
  | tree :: rest => visitAll (visit collector tree) rest

end

def collectDependencies (selectionSet : SelectionSetNode) : List Text :=
  (visit {} (selectionSetTree selectionSet)).dependencies

abbrev DepGraph := Dict Text (List Text)

inductive SeparationError
  | tooDeep
  deriving DecidableEq

/-- Collect transitive dependencies by recursing through a dependency graph. -/
def collectTransitiveDependencies (depGraph : DepGraph) :
    ℕ → RefSet Text → Text → Except SeparationError (RefSet Text)
  | 0, _, _ => .error .tooDeep
  | depth + 1, collected, fromName =>
      if fromName ∈ collected then .ok collected
      else
        let collected := collected.add fromName
        match depGraph.get fromName with
        | none => .ok collected
        | some immediateDeps =>
            immediateDeps.foldlM (collectTransitiveDependencies depGraph depth) collected

/-! ## Operations -/

section Operations

variable (document : DocumentNode)

/-- The operations with their positions. -/
def operations : List (OperationDefinitionNode × ℕ) :=
  document.definitions.zipIdx.filterMap fun
    | (.operation node, i) => some (node, i)
    | _ => none

/-- A fragment definition replaces an earlier one of the same name. -/
def dependencyGraph : DepGraph :=
  (fragmentDefinitions document).foldl (fun depGraph node =>
    depGraph.set node.name.value (collectDependencies node.selectionSet)) Dict.empty

/-- The empty string is the name of anonymous operations. -/
def operationName (operation : OperationDefinitionNode) : Text :=
  match operation.name with
  | some name => name.value
  | none => []

def isIncluded (dependencies : RefSet Text) (position : ℕ) : DefinitionNode × ℕ → Bool
  | (.fragment node, _) => node.name.value ∈ dependencies
  | (_, i) => i = position

/-- The document of an operation, in the order of the original document. -/
def separateOperation (depth : ℕ) (operation : OperationDefinitionNode × ℕ) :
    Except SeparationError DocumentNode := do
  let dependencies ← (collectDependencies operation.1.selectionSet).foldlM
    (collectTransitiveDependencies (dependencyGraph document) depth) RefSet.empty
  return { definitions := (document.definitions.zipIdx.filter
    (isIncluded dependencies operation.2)).map Prod.fst }

/-- Separate operations in a given AST document. -/
def separateOperations (depth : ℕ) : Except SeparationError (Dict Text DocumentNode) :=
  (operations document).foldlM (fun separated operation => do
    let separatedDocument ← separateOperation document depth operation
    return separated.set (operationName operation.1) separatedDocument) Dict.empty

end Operations

/-! ## What is collected from a selection set -/

mutual

theorem dependencies_visit (collector : DependencyCollector) : ∀ tree : Tree,
    (visit collector tree).dependencies = collector.dependencies ++ (visit {} tree).dependencies
  | .node node children => by
      have henter : (collector.enter node).dependencies =
          collector.dependencies ++ (DependencyCollector.enter {} node).dependencies := by
        cases node <;> first | rfl | exact (List.append_nil _).symm
      rw [visit, visit, dependencies_visitAll (collector.enter node) children,
        dependencies_visitAll (DependencyCollector.enter {} node) children, henter,
        List.append_assoc]

theorem dependencies_visitAll (collector : DependencyCollector) : ∀ trees : List Tree,
    (visitAll collector trees).dependencies =
      collector.dependencies ++ (visitAll {} trees).dependencies
  | [] => (List.append_nil _).symm
  | tree :: rest => by
      rw [visitAll, visitAll, dependencies_visitAll (visit collector tree) rest,
        dependencies_visitAll (visit {} tree) rest, dependencies_visit collector tree,
        List.append_assoc]

end

/-- The names of the spreads in the trees. -/
def spreadsOf (trees : List Tree) : List Text := (visitAll {} trees).dependencies

theorem spreadsOf_cons (tree : Tree) (rest : List Tree) :
    spreadsOf (tree :: rest) = (visit {} tree).dependencies ++ spreadsOf rest := by
  rw [spreadsOf, visitAll, dependencies_visitAll]
  rfl

theorem spreadsOf_singleton (tree : Tree) : spreadsOf [tree] = (visit {} tree).dependencies := rfl

theorem spreadsOf_append (trees trees' : List Tree) :
    spreadsOf (trees ++ trees') = spreadsOf trees ++ spreadsOf trees' := by
  induction trees with
  | nil => rfl
  | cons tree rest ih => rw [List.cons_append, spreadsOf_cons, spreadsOf_cons, ih,
    List.append_assoc]

mutual

/-- There are no spreads below the level of the spreads. -/
theorem dependencies_of_fits {level : ℕ} (hlevel : 2 ≤ level) {hasArguments : Bool} :
    ∀ tree : Tree, Fits level hasArguments tree → (visit {} tree).dependencies = []
  | .node node children, hfits => by
      have henter : DependencyCollector.enter {} node = {} := by
        cases node <;> first | rfl | exact absurd hfits.1 (Nat.not_lt_of_le hlevel)
      have hbelow : 2 ≤ node.level level := by
        cases node <;> first
          | exact hlevel
          | exact (by decide : 2 ≤ 2)
          | exact (by decide : 2 ≤ 3)
          | exact (by decide : 2 ≤ 4)
          | exact (by decide : 2 ≤ 5)
          | exact (by decide : 2 ≤ 6)
          | exact absurd (Nat.lt_succ_of_lt hfits.1) (Nat.not_lt_of_le hlevel)
      rw [visit, henter]
      exact spreadsOf_of_allFit hbelow children hfits.2.2

theorem spreadsOf_of_allFit {level : ℕ} (hlevel : 2 ≤ level) {hasArguments : Bool} :
    ∀ trees : List Tree, AllFit level hasArguments trees → spreadsOf trees = []
  | [], _ => rfl
  | tree :: rest, hfit => by
      rw [spreadsOf_cons, dependencies_of_fits hlevel tree hfit.1,
        spreadsOf_of_allFit hlevel rest hfit.2]
      rfl

end

/-- The fragment of that name is spread in the selection set, at any depth. -/
def Spreads (selectionSet : SelectionSetNode) (name : Text) : Prop :=
  ∃ node, SpreadIn node selectionSet ∧ node.name.value = name

/-- The fragment of that name is spread by the selection or in it. -/
def SelectionSpreads (name : Text) : SelectionNode → Prop
  | .field node => ∃ inner, node.selectionSet = some inner ∧ Spreads inner name
  | .fragmentSpread node => node.name.value = name
  | .inlineFragment node => Spreads node.selectionSet name

theorem spreads_iff {selections : List SelectionNode} {loc : Option Location} {name : Text} :
    Spreads ⟨selections, loc⟩ name ↔
      ∃ selection ∈ selections, SelectionSpreads name selection := by
  constructor
  · rintro ⟨node, hin, hname⟩
    cases hin with
    | own h => exact ⟨_, h, hname⟩
    | field h hinner hin => exact ⟨_, h, _, hinner, node, hin, hname⟩
    | inlineFragment h hin => exact ⟨_, h, node, hin, hname⟩
  · rintro ⟨selection, hmem, hspreads⟩
    cases selection with
    | field field =>
        obtain ⟨inner, hinner, node, hin, hname⟩ := hspreads
        exact ⟨node, .field hmem hinner hin, hname⟩
    | fragmentSpread node => exact ⟨node, .own hmem, hspreads⟩
    | inlineFragment fragment =>
        obtain ⟨node, hin, hname⟩ := hspreads
        exact ⟨node, .inlineFragment hmem hin, hname⟩

mutual

theorem mem_selectionTree {name : Text} : ∀ selection : SelectionNode,
    name ∈ (visit {} (selectionTree selection)).dependencies ↔ SelectionSpreads name selection
  | .field ⟨fieldAlias, fieldName, arguments, directives, selectionSet, loc⟩ => by
      have hfit : AllFit 2 true (fieldAlias.toList.map nameTree ++ [nameTree fieldName] ++
          listTrees argumentTree arguments ++ directiveTrees directives) := by
        simp only [allFit_append]
        refine ⟨⟨⟨?_, ?_⟩, ?_⟩, ?_⟩
        · exact allFit_option (fits_name (by decide)) _
        · exact ⟨fits_name (by decide) _, trivial⟩
        · exact allFit_list (fits_argument (by decide)) _
        · exact allFit_directives (by decide) _
      have hall : (visit {} (selectionTree (.field
          ⟨fieldAlias, fieldName, arguments, directives, selectionSet, loc⟩))).dependencies =
          spreadsOf (fieldAlias.toList.map nameTree ++ [nameTree fieldName] ++
            listTrees argumentTree arguments ++ directiveTrees directives ++
            subselectionTrees selectionSet) := rfl
      rw [hall, spreadsOf_append, spreadsOf_of_allFit (le_refl 2) _ hfit, List.nil_append]
      exact mem_subselectionTrees selectionSet
  | .fragmentSpread node => by
      have hfit : AllFit 2 false (nameTree node.name ::
          (listTrees fragmentArgumentTree node.arguments ++ directiveTrees node.directives)) := by
        refine ⟨fits_name (by decide) _, allFit_append.mpr ⟨?_, ?_⟩⟩
        · exact allFit_list (fits_fragmentArgument (by decide)) _
        · exact allFit_directives (by decide) _
      have hbelow := spreadsOf_of_allFit (le_refl 2) _ hfit
      unfold spreadsOf at hbelow
      rw [selectionTree, spreadTree, visit, dependencies_visitAll, hbelow, List.append_nil]
      exact List.mem_singleton.trans eq_comm
  | .inlineFragment ⟨typeCondition, directives, ⟨selections, setLoc⟩, loc⟩ => by
      have hfit : AllFit 2 false (typeCondition.toList.map namedTypeTree ++
          directiveTrees directives) :=
        allFit_append.mpr ⟨allFit_option (fits_namedType (by decide)) _,
          allFit_directives (by decide) _⟩
      have hall : (visit {} (selectionTree (.inlineFragment
          ⟨typeCondition, directives, ⟨selections, setLoc⟩, loc⟩))).dependencies =
          spreadsOf (typeCondition.toList.map namedTypeTree ++ directiveTrees directives ++
            [selectionSetTree ⟨selections, setLoc⟩]) := rfl
      rw [hall, spreadsOf_append, spreadsOf_of_allFit (le_refl 2) _ hfit, List.nil_append]
      exact (mem_selectionTrees selections).trans spreads_iff.symm

theorem mem_subselectionTrees {name : Text} : ∀ selectionSet : Option SelectionSetNode,
    name ∈ spreadsOf (subselectionTrees selectionSet) ↔
      ∃ inner, selectionSet = some inner ∧ Spreads inner name
  | none => by
      refine iff_of_false List.not_mem_nil ?_
      rintro ⟨inner, h, -⟩
      cases h
  | some ⟨selections, loc⟩ => by
      refine (mem_selectionTrees selections).trans ?_
      simp only [Option.some.injEq, exists_eq_left']
      exact spreads_iff.symm

theorem mem_selectionTrees {name : Text} : ∀ selections : List SelectionNode,
    name ∈ spreadsOf (selectionTrees selections) ↔
      ∃ selection ∈ selections, SelectionSpreads name selection
  | [] => by
      refine iff_of_false List.not_mem_nil ?_
      rintro ⟨selection, h, -⟩
      cases h
  | selection :: rest => by
      rw [TypeTracking.selectionTrees, spreadsOf_cons, List.mem_append, mem_selectionTree selection,
        mem_selectionTrees rest, List.exists_mem_cons_iff]

end

/-- The dependencies of a selection set are the fragments that are spread in it. -/
theorem mem_collectDependencies {selectionSet : SelectionSetNode} {name : Text} :
    name ∈ collectDependencies selectionSet ↔ Spreads selectionSet name := by
  obtain ⟨selections, loc⟩ := selectionSet
  exact (mem_selectionTrees selections).trans spreads_iff.symm

/-! ## Transitive dependencies -/

/-- The dependencies of a fragment, of which there are none if it is missing. -/
def dependenciesOf (depGraph : DepGraph) (name : Text) : List Text := (depGraph.get name).getD []

theorem collectTransitiveDependencies_eq (depGraph : DepGraph) (depth : ℕ) :
    collectTransitiveDependencies depGraph depth =
      collect (dependenciesOf depGraph) SeparationError.tooDeep depth := by
  induction depth with
  | zero => rfl
  | succ depth ih =>
      funext collected fromName
      rw [collectTransitiveDependencies, collect, ih, dependenciesOf]
      cases depGraph.get fromName <;> rfl

/-- The last fragment definition of that name. -/
def fragmentNamed (document : DocumentNode) (name : Text) : Option FragmentDefinitionNode :=
  (fragmentDefinitions document).reverse.find? fun fragment => fragment.name.value = name

theorem get_dependencyGraph (document : DocumentNode) (name : Text) :
    (dependencyGraph document).get name =
      (fragmentNamed document name).map fun fragment =>
        collectDependencies fragment.selectionSet := by
  rw [dependencyGraph, fragmentNamed]
  induction fragmentDefinitions document using List.reverseRecOn with
  | nil => rfl
  | append_singleton fragments fragment ih =>
      rw [List.foldl_append, List.foldl_cons, List.foldl_nil, Dict.get_set, List.reverse_append,
        List.reverse_singleton, List.singleton_append, List.find?_cons]
      by_cases hname : fragment.name.value = name
      · simp [hname]
      · rw [if_neg (Ne.symm hname), ih]
        simp [hname]

/-- The first fragment spreads the second one. -/
def FragmentSpreads (document : DocumentNode) (name name' : Text) : Prop :=
  ∃ fragment, fragmentNamed document name = some fragment ∧ Spreads fragment.selectionSet name'

theorem mem_dependenciesOf {document : DocumentNode} {name name' : Text} :
    name' ∈ dependenciesOf (dependencyGraph document) name ↔
      FragmentSpreads document name name' := by
  rw [dependenciesOf, get_dependencyGraph, FragmentSpreads]
  cases fragmentNamed document name with
  | none => simp
  | some fragment => simp [mem_collectDependencies]

/-- The operation needs the fragment of that name. -/
def Needs (document : DocumentNode) (operation : OperationDefinitionNode) (name : Text) : Prop :=
  ∃ start, Spreads operation.selectionSet start ∧
    Relation.ReflTransGen (FragmentSpreads document) start name

theorem reachedFrom_iff {document : DocumentNode} {operation : OperationDefinitionNode}
    {name : Text} :
    ReachedFrom (dependenciesOf (dependencyGraph document))
        (collectDependencies operation.selectionSet) name ↔ Needs document operation name := by
  rw [ReachedFrom, Needs]
  refine exists_congr fun start => and_congr mem_collectDependencies ?_
  have hsame : (fun name target => target ∈ dependenciesOf (dependencyGraph document) name) =
      FragmentSpreads document :=
    funext fun name => funext fun target => propext mem_dependenciesOf
  rw [hsame]

/-- The names that are spread anywhere in the document. -/
def spreadNames (document : DocumentNode) : Finset Text :=
  (document.definitions.flatMap fun
    | .operation node => collectDependencies node.selectionSet
    | .fragment node => collectDependencies node.selectionSet
    | _ => []).toFinset

theorem mem_spreadNames_of_operation {document : DocumentNode}
    {operation : OperationDefinitionNode} (h : .operation operation ∈ document.definitions)
    {name : Text} (hname : name ∈ collectDependencies operation.selectionSet) :
    name ∈ spreadNames document :=
  List.mem_toFinset.mpr (List.mem_flatMap.mpr ⟨_, h, hname⟩)

theorem mem_spreadNames_of_dependency {document : DocumentNode} {name target : Text}
    (h : target ∈ dependenciesOf (dependencyGraph document) name) :
    target ∈ spreadNames document := by
  rw [mem_dependenciesOf] at h
  obtain ⟨fragment, hfragment, hspreads⟩ := h
  have hmem : fragment ∈ fragmentDefinitions document :=
    List.mem_reverse.mp (List.mem_of_find?_eq_some hfragment)
  obtain ⟨definition, hdefinition, heq⟩ := List.mem_filterMap.mp hmem
  refine List.mem_toFinset.mpr (List.mem_flatMap.mpr ⟨definition, hdefinition, ?_⟩)
  cases definition with
  | fragment node =>
      obtain rfl := Option.some.inj heq
      exact mem_collectDependencies.mpr hspreads
  | _ => cases heq

/-- The dependencies of an operation are collected in full. -/
theorem exists_dependencies {document : DocumentNode} {operation : OperationDefinitionNode}
    (h : .operation operation ∈ document.definitions) {depth : ℕ}
    (hdepth : (spreadNames document).card < depth) :
    ∃ dependencies, (collectDependencies operation.selectionSet).foldlM
        (collectTransitiveDependencies (dependencyGraph document) depth) RefSet.empty =
          .ok dependencies ∧
      ∀ name, name ∈ dependencies ↔ Needs document operation name := by
  have hdeep : DeepEnough (spreadNames document) depth RefSet.empty :=
    lt_of_le_of_lt (Finset.card_le_card Finset.sdiff_subset) hdepth
  have hstep : ∀ s, ∀ name ∈ collectDependencies operation.selectionSet,
      DeepEnough (spreadNames document) depth s →
      ∃ s', collect (dependenciesOf (dependencyGraph document)) SeparationError.tooDeep depth s
        name = .ok s' ∧ Collects (dependenciesOf (dependencyGraph document)) [name] s s' :=
    fun s name hname hdeep => exists_collect (fun _ _ _ => mem_spreadNames_of_dependency) hdeep
      (mem_spreadNames_of_operation h hname)
  obtain ⟨dependencies, hrun, hcollects⟩ :=
    exists_foldlM_collects _ _ _ hstep DeepEnough.mono hdeep
  rw [List.flatMap_singleton'] at hcollects
  refine ⟨dependencies, ?_, fun name => ?_⟩
  · rw [collectTransitiveDependencies_eq]
    exact hrun
  · rw [← reachedFrom_iff]
    constructor
    · intro hname
      exact (hcollects.sound name hname).resolve_left RefSet.not_mem_empty
    · intro hreached
      exact hreached.mem hcollects.starts_mem fun node hnode =>
        hcollects.closed node hnode RefSet.not_mem_empty

/-! ## Separated documents -/

/-- A definition that is kept beside an operation. -/
def isNeeded (dependencies : RefSet Text) : DefinitionNode → Bool
  | .fragment node => node.name.value ∈ dependencies
  | _ => false

theorem isIncluded_of_ne {dependencies : RefSet Text} {position i : ℕ} (hne : i ≠ position)
    (definition : DefinitionNode) :
    isIncluded dependencies position (definition, i) = isNeeded dependencies definition := by
  cases definition <;> simp [isIncluded, isNeeded, hne]

/-- Away from the position of the operation only fragments are included. -/
theorem filter_isIncluded (dependencies : RefSet Text) (position : ℕ)
    (definitions : List DefinitionNode) (start : ℕ)
    (h : ∀ i, start ≤ i → i < start + definitions.length → i ≠ position) :
    ((definitions.zipIdx start).filter (isIncluded dependencies position)).map Prod.fst =
      definitions.filter (isNeeded dependencies) := by
  induction definitions generalizing start with
  | nil => rfl
  | cons definition rest ih =>
      have hhead := h start (le_refl start) (by simp)
      have hrest := ih (start + 1) fun i hle hlt => h i (by omega) (by
        rw [List.length_cons]
        omega)
      rw [List.zipIdx_cons, List.filter_cons, List.filter_cons, isIncluded_of_ne hhead]
      cases isNeeded dependencies definition with
      | true => exact congrArg (definition :: ·) hrest
      | false => exact hrest

/-- The document of the operation between other definitions. -/
theorem separateOperation_between {before after : List DefinitionNode}
    {operation : OperationDefinitionNode} {document : DocumentNode}
    (h : document.definitions = before ++ .operation operation :: after) {depth : ℕ}
    (hdepth : (spreadNames document).card < depth) :
    ∃ dependencies, (∀ name, name ∈ dependencies ↔ Needs document operation name) ∧
      separateOperation document depth (operation, before.length) = .ok
        { definitions := before.filter (isNeeded dependencies) ++
            .operation operation :: after.filter (isNeeded dependencies) } := by
  have hmem : .operation operation ∈ document.definitions := by
    rw [h]
    exact List.mem_append_right _ List.mem_cons_self
  obtain ⟨dependencies, hrun, hneeds⟩ := exists_dependencies hmem hdepth
  refine ⟨dependencies, hneeds, ?_⟩
  have hself : isIncluded dependencies before.length (.operation operation, 0 + before.length) =
      true := by simp [isIncluded]
  have hbefore := filter_isIncluded dependencies before.length before 0 fun i _ hlt => by omega
  have hafter := filter_isIncluded dependencies before.length after (0 + before.length + 1)
    fun i hle _ => by omega
  have hdefinitions : (document.definitions.zipIdx.filter
      (isIncluded dependencies before.length)).map Prod.fst =
        before.filter (isNeeded dependencies) ++
          .operation operation :: after.filter (isNeeded dependencies) := by
    rw [h, List.zipIdx_append, List.zipIdx_cons, List.filter_append,
      List.filter_cons_of_pos hself, List.map_append, List.map_cons, hbefore, hafter]
  rw [separateOperation, hrun]
  exact congrArg (fun definitions => Except.ok (DocumentNode.mk definitions none 0)) hdefinitions

/-- What a loop stores under the keys of the items: the last one counts. -/
structure StoresLast {α β ε : Type} (key : α → Text) (f : α → Except ε β) (items : List α)
    (d d' : Dict Text β) : Prop where
  others : ∀ name, (∀ item ∈ items, key item ≠ name) → d'.get name = d.get name
  keys : ∀ item ∈ items, (d'.get (key item)).isSome
  last : ∀ before item after, items = before ++ item :: after →
    (∀ other ∈ after, key other ≠ key item) →
      ∀ value, f item = .ok value → d'.get (key item) = some value

theorem exists_storesLast {α β ε : Type} (key : α → Text) {f : α → Except ε β} {items : List α}
    (h : ∀ item ∈ items, ∃ value, f item = .ok value) (d : Dict Text β) :
    ∃ d', items.foldlM (fun d item => do
        let value ← f item
        return d.set (key item) value) d = .ok d' ∧ StoresLast key f items d d' := by
  induction items generalizing d with
  | nil =>
      refine ⟨d, rfl, fun _ _ => rfl, fun _ hitem => absurd hitem List.not_mem_nil, ?_⟩
      intro before item after heq
      exact absurd heq.symm (List.append_ne_nil_of_right_ne_nil _ (List.cons_ne_nil _ _))
  | cons item rest ih =>
      rw [List.forall_mem_cons] at h
      obtain ⟨⟨value, hvalue⟩, hrest⟩ := h
      obtain ⟨d', hrun, hstores⟩ := ih hrest (d.set (key item) value)
      have hkey : ∀ name, (∀ other ∈ rest, key other ≠ name) →
          d'.get name = if name = key item then some value else d.get name := by
        intro name hnone
        rw [hstores.others name hnone, Dict.get_set]
      refine ⟨d', ?_, ?_, ?_, ?_⟩
      · rw [List.foldlM_cons, hvalue]
        exact hrun
      · intro name hnone
        rw [List.forall_mem_cons] at hnone
        rw [hkey name hnone.2, if_neg (Ne.symm hnone.1)]
      · rw [List.forall_mem_cons]
        refine ⟨?_, hstores.keys⟩
        by_cases hagain : ∃ other ∈ rest, key other = key item
        · obtain ⟨other, hother, heq⟩ := hagain
          exact heq ▸ hstores.keys other hother
        · rw [hkey _ fun other hother heq => hagain ⟨other, hother, heq⟩, if_pos rfl]
          rfl
      · intro before item' after heq hlast value' hvalue'
        cases before with
        | nil =>
            obtain ⟨rfl, rfl⟩ := List.cons.inj heq
            rw [hkey _ hlast, if_pos rfl, Except.ok.inj (hvalue.symm.trans hvalue')]
        | cons first before =>
            exact hstores.last before item' after (List.cons.inj heq).2 hlast value' hvalue'

theorem mem_operations {document : DocumentNode} {operation : OperationDefinitionNode × ℕ}
    (h : operation ∈ operations document) :
    ∃ before after, document.definitions = before ++ .operation operation.1 :: after ∧
      operation.2 = before.length := by
  obtain ⟨⟨definition, i⟩, hmem, heq⟩ := List.mem_filterMap.mp h
  cases definition with
  | operation node =>
      obtain rfl := Option.some.inj heq
      obtain ⟨hlt, hget⟩ := List.mem_zipIdx' hmem
      refine ⟨document.definitions.take i, document.definitions.drop (i + 1), ?_, ?_⟩
      · rw [hget, List.cons_getElem_drop_succ, List.take_append_drop]
      · rw [List.length_take, Nat.min_eq_left (Nat.le_of_lt hlt)]
  | _ => cases heq

theorem operations_between {before after : List DefinitionNode}
    {operation : OperationDefinitionNode} {document : DocumentNode}
    (h : document.definitions = before ++ .operation operation :: after) :
    ∃ earlier later, operations document =
        earlier ++ (operation, before.length) :: later ∧
      ∀ other ∈ later, .operation other.1 ∈ after := by
  rw [operations, h, List.zipIdx_append, List.zipIdx_cons, List.filterMap_append,
    List.filterMap_cons_some (b := (operation, before.length)) (by simp)]
  refine ⟨_, _, rfl, fun other hother => ?_⟩
  obtain ⟨⟨definition, i⟩, hmem, heq⟩ := List.mem_filterMap.mp hother
  cases definition with
  | operation node =>
      obtain rfl := Option.some.inj heq
      exact List.fst_mem_of_mem_zipIdx hmem
  | _ => cases heq

/-! ## Main result -/

/-- Each operation name has the document of the last operation of that name, with the
fragments that the operation needs. -/
structure Separates (document : DocumentNode) (separated : Dict Text DocumentNode) : Prop where
  names : ∀ name, (separated.get name).isSome ↔
    ∃ operation, .operation operation ∈ document.definitions ∧ operationName operation = name
  documents : ∀ before operation after,
    document.definitions = before ++ .operation operation :: after →
    (∀ other, .operation other ∈ after → operationName other ≠ operationName operation) →
    ∃ isKept : DefinitionNode → Bool,
      (∀ definition, isKept definition ↔ ∃ fragment, definition = .fragment fragment ∧
        Needs document operation fragment.name.value) ∧
      separated.get (operationName operation) = some
        { definitions := before.filter isKept ++ .operation operation :: after.filter isKept }

/-- The separation ends on every document, with the operations and what they need. -/
theorem separateOperations_separates (document : DocumentNode) :
    ∃ bound, ∀ depth, bound < depth →
      ∃ separated, separateOperations document depth = .ok separated ∧
        Separates document separated := by
  refine ⟨(spreadNames document).card, fun depth hdepth => ?_⟩
  have hrun : ∀ operation ∈ operations document,
      ∃ separatedDocument, separateOperation document depth operation = .ok separatedDocument := by
    intro operation hoperation
    obtain ⟨before, after, hdefinitions, hposition⟩ := mem_operations hoperation
    obtain ⟨dependencies, -, hseparate⟩ := separateOperation_between hdefinitions hdepth
    rw [← hposition] at hseparate
    exact ⟨_, hseparate⟩
  obtain ⟨separated, hseparated, hstores⟩ :=
    exists_storesLast (fun operation => operationName operation.1) hrun Dict.empty
  refine ⟨separated, hseparated, ?_, ?_⟩
  · intro name
    constructor
    · intro hsome
      by_contra hnone
      rw [hstores.others name, Dict.get_empty] at hsome
      · cases hsome
      · intro operation hoperation hname
        obtain ⟨before, after, hdefinitions, -⟩ := mem_operations hoperation
        refine hnone ⟨operation.1, ?_, hname⟩
        rw [hdefinitions]
        exact List.mem_append_right _ List.mem_cons_self
    · rintro ⟨operation, hoperation, rfl⟩
      obtain ⟨before, after, hdefinitions⟩ := List.append_of_mem hoperation
      obtain ⟨earlier, later, heq, -⟩ := operations_between hdefinitions
      refine hstores.keys (operation, before.length) ?_
      rw [heq]
      exact List.mem_append_right _ List.mem_cons_self
  · intro before operation after hdefinitions hlast
    obtain ⟨dependencies, hneeds, hseparate⟩ := separateOperation_between hdefinitions hdepth
    obtain ⟨earlier, later, heq, hlater⟩ := operations_between hdefinitions
    refine ⟨isNeeded dependencies, fun definition => ?_, ?_⟩
    · cases definition with
      | fragment fragment =>
          rw [isNeeded, decide_eq_true_iff, hneeds]
          simp
      | _ => simp [isNeeded]
    · exact hstores.last earlier (operation, before.length) later heq
        (fun other hother => hlast other.1 (hlater other hother)) _ hseparate

/-! ## Definitions of the same name -/

def spreading (name : String) : SelectionNode := .fragmentSpread { name := { value := str name } }

def queryNamed (name : String) (selection : SelectionNode) : OperationDefinitionNode where
  operation := .query
  name := some { value := str name }
  selectionSet := ⟨[selection], none⟩

def fragmentOn (name : String) (selection : SelectionNode) : FragmentDefinitionNode where
  name := { value := str name }
  typeCondition := { name := { value := str "Query" } }
  selectionSet := ⟨[selection], none⟩

def typenameField : SelectionNode :=
  .field ⟨none, { value := str "__typename" }, none, none, none, none⟩

/-- The first fragment `A` spreads `B`, the second one does not. -/
def spreadTwice : List FragmentDefinitionNode :=
  [fragmentOn "A" (spreading "B"), fragmentOn "A" typenameField, fragmentOn "B" typenameField]

/-- Two operations `Q`, of which the second one spreads `A`. -/
def namedTwice : DocumentNode where
  definitions := .operation (queryNamed "Q" typenameField) ::
    .operation (queryNamed "Q" (spreading "A")) :: spreadTwice.map .fragment

/-- The names of the fragments of the separated document. -/
def fragmentNames (separated : Dict Text DocumentNode) (name : Text) : Option (List Text) :=
  (separated.get name).map fun document =>
    (fragmentDefinitions document).map fun fragment => fragment.name.value

/-- The first operation has no document, and the fragment that the first definition spreads
is missing. -/
theorem namedTwice_not_separated :
    (∃ fragment ∈ fragmentDefinitions namedTwice, fragment.name.value = str "A" ∧
        Spreads fragment.selectionSet (str "B")) ∧
      Spreads (queryNamed "Q" (spreading "A")).selectionSet (str "A") ∧
      ∃ separated, separateOperations namedTwice 4 = .ok separated ∧
        separated.keys = [str "Q"] ∧
        fragmentNames separated (str "Q") = some [str "A", str "A"] := by
  refine ⟨⟨fragmentOn "A" (spreading "B"), List.mem_cons_self, rfl, ?_⟩, ?_, _, rfl, ?_, ?_⟩
  · exact ⟨_, .own (List.mem_singleton_self _), rfl⟩
  · exact ⟨_, .own (List.mem_singleton_self _), rfl⟩
  · decide
  · decide

end GraphqlCore.Separation
