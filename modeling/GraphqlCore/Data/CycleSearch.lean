import Mathlib.Data.List.Basic
import Mathlib.Logic.Function.Basic
import Mathlib.Logic.Relation
import Mathlib.Tactic.Common

/-!
# Searching for cycles

A depth-first search through a graph with labelled edges, which has one set of visited
nodes for all its starts and goes on after a cycle was found.  Its path leads from every
node with an index to the node that is being searched, so that a reported path is a
cycle; and as long as nothing is reported, no edges lead from a node that the search has
left into a cycle.
-/

namespace GraphqlCore.CycleSearch

universe u v

variable {ν : Type u} {ε : Type v}

/-! ## Paths -/

/-- The edges lead from one node to the other. -/
def Leads (next : ν → List (ε × ν)) : ν → List ε → ν → Prop
  | node, [], last => node = last
  | node, label :: path, last => ∃ mid, (label, mid) ∈ next node ∧ Leads next mid path last

def Edge (next : ν → List (ε × ν)) (node target : ν) : Prop :=
  ∃ label, (label, target) ∈ next node

/-- The path leads from the node back to it. -/
def IsCycle (next : ν → List (ε × ν)) (node : ν) (path : List ε) : Prop :=
  path ≠ [] ∧ Leads next node path node

/-- No cycle is reached from the node. -/
def Grounded (next : ν → List (ε × ν)) (node : ν) : Prop :=
  Acc (fun target node => Edge next node target) node

section Paths

variable {next : ν → List (ε × ν)} {node last : ν} {path : List ε}

theorem Leads.concat {label : ε} {target : ν} (h : Leads next node path last)
    (hedge : (label, target) ∈ next last) : Leads next node (path ++ [label]) target := by
  induction path generalizing node with
  | nil =>
      obtain rfl : node = last := h
      exact ⟨target, hedge, rfl⟩
  | cons first path ih =>
      obtain ⟨mid, hfirst, hrest⟩ := h
      exact ⟨mid, hfirst, ih hrest⟩

theorem Leads.reflTransGen (h : Leads next node path last) :
    Relation.ReflTransGen (Edge next) node last := by
  induction path generalizing node with
  | nil =>
      obtain rfl : node = last := h
      exact .refl
  | cons first path ih =>
      obtain ⟨mid, hfirst, hrest⟩ := h
      exact .head ⟨first, hfirst⟩ (ih hrest)

theorem IsCycle.transGen (h : IsCycle next node path) :
    Relation.TransGen (Edge next) node node := by
  obtain ⟨hne, hleads⟩ := h
  cases path with
  | nil => exact absurd rfl hne
  | cons first path =>
      obtain ⟨mid, hfirst, hrest⟩ := hleads
      exact .head' ⟨first, hfirst⟩ hrest.reflTransGen

theorem Grounded.not_cycle (h : Grounded next node) :
    ¬ Relation.TransGen (Edge next) node node := by
  induction h with
  | intro node _ ih =>
      intro hcycle
      obtain ⟨target, hfirst, hback⟩ := Relation.TransGen.head'_iff.mp hcycle
      exact ih target hfirst (.tail' hback hfirst)

end Paths

/-! ## The search -/

/-- The nodes that were visited, the path to the current node with the positions of the
nodes on it, and the cycles that were found. -/
structure State (ν : Type u) (ε : Type v) where
  visited : List ν
  path : List ε
  index : ν → Option ℕ
  reports : List (ν × List ε)

namespace State

def start : State ν ε := ⟨[], [], fun _ => none, []⟩

theorem index_start (node : ν) : (start : State ν ε).index node = none := rfl

variable [DecidableEq ν]

def enter (s : State ν ε) (node : ν) : State ν ε :=
  { s with
    visited := node :: s.visited
    index := Function.update s.index node (some s.path.length) }

def leave (s : State ν ε) (node : ν) : State ν ε :=
  { s with index := Function.update s.index node none }

def push (s : State ν ε) (label : ε) : State ν ε := { s with path := s.path ++ [label] }

def pop (s : State ν ε) : State ν ε := { s with path := s.path.dropLast }

def report (s : State ν ε) (node : ν) (idx : ℕ) : State ν ε :=
  { s with reports := s.reports ++ [(node, s.path.drop idx)] }

theorem index_enter_self (s : State ν ε) (node : ν) :
    (s.enter node).index node = some s.path.length :=
  Function.update_self ..

theorem index_enter_of_ne (s : State ν ε) {node other : ν} (h : other ≠ node) :
    (s.enter node).index other = s.index other :=
  Function.update_of_ne h ..

theorem index_leave_self (s : State ν ε) (node : ν) : (s.leave node).index node = none :=
  Function.update_self ..

theorem index_leave_of_ne (s : State ν ε) {node other : ν} (h : other ≠ node) :
    (s.leave node).index other = s.index other :=
  Function.update_of_ne h ..

/-- To leave a node that had no index undoes entering it. -/
theorem index_leave_of_enter {s s' : State ν ε} {node : ν} (hnone : s.index node = none)
    (h : s'.index = (s.enter node).index) : (s'.leave node).index = s.index := by
  have hleave : (s'.leave node).index = Function.update s'.index node none := rfl
  have henter : (s.enter node).index = Function.update s.index node (some s.path.length) :=
    rfl
  rw [hleave, h, henter, Function.update_idem, ← hnone, Function.update_eq_self]

end State

section Search

variable [DecidableEq ν] (next : ν → List (ε × ν))

/-- Follow an edge: to a node on the path it closes a cycle. -/
def follow (visit : ν → State ν ε → Option (State ν ε)) (s : State ν ε)
    (edge : ε × ν) : Option (State ν ε) :=
  match s.index edge.2 with
  | some idx => some ((s.push edge.1).report edge.2 idx).pop
  | none => (visit edge.2 (s.push edge.1)).map State.pop

/-- Search from a node, down to a depth. -/
def search : ℕ → ν → State ν ε → Option (State ν ε)
  | 0, _, _ => none
  | depth + 1, node, s =>
      if node ∈ s.visited then some s
      else ((next node).foldlM (follow (search depth)) (s.enter node)).map (·.leave node)

def searchAll (depth : ℕ) (starts : List ν) (s : State ν ε) : Option (State ν ε) :=
  starts.foldlM (fun s node => search next depth node s) s

/-- The search with edges to start with. -/
def followAll (depth : ℕ) (starts : List (ε × ν)) (s : State ν ε) : Option (State ν ε) :=
  starts.foldlM (follow (search next depth)) s

end Search

/-! ## What the search does -/

/-- The nodes that the search has left are grounded. -/
def Clean (next : ν → List (ε × ν)) (s : State ν ε) : Prop :=
  ∀ node ∈ s.visited, s.index node = none → Grounded next node

/-- The path leads from each node with an index to the current one. -/
def OnPath (next : ν → List (ε × ν)) (s : State ν ε) (current : ν) : Prop :=
  ∀ node idx, s.index node = some idx →
    idx ≤ s.path.length ∧ Leads next node (s.path.drop idx) current

/-- What a part of the search does. -/
structure Explores (next : ν → List (ε × ν)) (s s' : State ν ε) : Prop where
  visited : s.visited ⊆ s'.visited
  path : s'.path = s.path
  index : s'.index = s.index
  reported : s.reports <+: s'.reports
  sound : ∀ report ∈ s'.reports, report ∈ s.reports ∨ IsCycle next report.1 report.2
  clean : s'.reports = s.reports → Clean next s → Clean next s'

namespace Explores

variable {next : ν → List (ε × ν)} {s s' s'' : State ν ε}

theorem refl (s : State ν ε) : Explores next s s where
  visited := List.Subset.refl _
  path := rfl
  index := rfl
  reported := List.prefix_rfl
  sound := fun _ h => .inl h
  clean := fun _ h => h

/-- If nothing is reported in both parts, then in neither. -/
theorem reports_eq (h : Explores next s s') (h' : Explores next s' s'')
    (heq : s''.reports = s.reports) :
    s'.reports = s.reports ∧ s''.reports = s'.reports := by
  have hback : s'.reports <+: s.reports := heq ▸ h'.reported
  have hsame : s'.reports = s.reports := hback.eq_of_length_le h.reported.length_le
  exact ⟨hsame, heq.trans hsame.symm⟩

theorem trans (h : Explores next s s') (h' : Explores next s' s'') :
    Explores next s s'' where
  visited := List.Subset.trans h.visited h'.visited
  path := h'.path.trans h.path
  index := h'.index.trans h.index
  reported := h.reported.trans h'.reported
  sound := fun report hreport => (h'.sound report hreport).elim (h.sound report) .inr
  clean := fun heq hclean =>
    have hparts := h.reports_eq h' heq
    h'.clean hparts.2 (h.clean hparts.1 hclean)

theorem onPath {current : ν} (h : Explores next s s') (hpath : OnPath next s current) :
    OnPath next s' current := by
  intro node idx hidx
  rw [h.index] at hidx
  rw [h.path]
  exact hpath node idx hidx

/-- A label that was put on the path is taken away again. -/
theorem pop_push {label : ε} (h : Explores next (s.push label) s') :
    Explores next s s'.pop where
  visited := h.visited
  path := by
    rw [State.pop, h.path, State.push, List.dropLast_concat]
  index := h.index
  reported := h.reported
  sound := h.sound
  clean := h.clean

end Explores

section Steps

variable {next : ν → List (ε × ν)} {s s' : State ν ε} {node : ν}

theorem OnPath.push {label : ε} {target : ν} (h : OnPath next s node)
    (hedge : (label, target) ∈ next node) : OnPath next (s.push label) target := by
  intro other idx hidx
  obtain ⟨hle, hleads⟩ := h other idx hidx
  have hdrop : (s.push label).path.drop idx = s.path.drop idx ++ [label] :=
    List.drop_append_of_le_length hle
  have hlength : (s.push label).path.length = s.path.length + 1 := by
    simp [State.push]
  rw [hdrop, hlength]
  exact ⟨Nat.le_succ_of_le hle, hleads.concat hedge⟩

/-- An edge to a node on the path closes a cycle. -/
theorem explores_report {label : ε} {target : ν} {idx : ℕ} (h : OnPath next s node)
    (hedge : (label, target) ∈ next node) (hidx : s.index target = some idx) :
    Explores next (s.push label) ((s.push label).report target idx) where
  visited := List.Subset.refl _
  path := rfl
  index := rfl
  reported := List.prefix_append _ _
  sound := by
    intro report hreport
    rcases List.mem_append.mp hreport with hold | hnew
    · exact .inl hold
    · have hdrop : (s.push label).path.drop idx = s.path.drop idx ++ [label] :=
        List.drop_append_of_le_length (h target idx hidx).1
      have hleads := (h.push hedge target idx hidx).2
      rw [List.mem_singleton.mp hnew]
      refine .inr ⟨?_, hleads⟩
      rw [hdrop]
      exact List.append_ne_nil_of_right_ne_nil _ (List.cons_ne_nil _ _)
  clean := fun heq _ => absurd heq (by simp [State.report])

variable [DecidableEq ν]

/-- The nodes that are not visited yet, which bound the depth of the search. -/
def remaining (nodes : List ν) (s : State ν ε) : ℕ :=
  (nodes.filter (· ∉ s.visited)).length

theorem remaining_le (nodes : List ν) (h : s.visited ⊆ s'.visited) :
    remaining nodes s' ≤ remaining nodes s := by
  refine List.Sublist.length_le (List.monotone_filter_right nodes fun other hother => ?_)
  rw [decide_eq_true_iff] at hother ⊢
  exact fun hmem => hother (h hmem)

theorem remaining_enter_lt {nodes : List ν} (hnode : node ∈ nodes)
    (hnew : node ∉ s.visited) : remaining nodes (s.enter node) < remaining nodes s := by
  unfold remaining
  induction nodes with
  | nil => cases hnode
  | cons other rest ih =>
      have hrest : remaining rest (s.enter node) ≤ remaining rest s :=
        remaining_le rest (List.subset_cons_self _ _)
      unfold remaining at hrest
      by_cases heq : node = other
      · have hold : other ∉ s.visited := heq ▸ hnew
        have hvisited : other ∈ (s.enter node).visited := heq ▸ List.mem_cons_self
        simp only [List.filter_cons, hold, hvisited, not_false_eq_true, decide_true,
          not_true_eq_false, decide_false, if_true, Bool.false_eq_true, if_false,
          List.length_cons]
        omega
      · have hmem := ih ((List.mem_cons.mp hnode).resolve_left heq)
        have hvisited : other ∈ (s.enter node).visited ↔ other ∈ s.visited := by
          simp [State.enter, Ne.symm heq]
        simp only [List.filter_cons, hvisited]
        split
        · simpa using hmem
        · exact hmem

theorem OnPath.enter (h : OnPath next s node) : OnPath next (s.enter node) node := by
  intro other idx hidx
  by_cases heq : other = node
  · subst heq
    rw [s.index_enter_self] at hidx
    obtain rfl := Option.some.inj hidx
    refine ⟨Nat.le_refl _, ?_⟩
    have hdrop : (s.enter other).path.drop s.path.length = [] := List.drop_length
    rw [hdrop]
    rfl
  · rw [s.index_enter_of_ne heq] at hidx
    exact h other idx hidx

theorem Clean.enter (h : Clean next s) : Clean next (s.enter node) := by
  intro other hmem hnone
  by_cases heq : other = node
  · subst heq
    rw [s.index_enter_self] at hnone
    cases hnone
  · rw [s.index_enter_of_ne heq] at hnone
    exact h other ((List.mem_cons.mp hmem).resolve_left heq) hnone

/-- The search leaves a node whose edges lead to grounded nodes only. -/
theorem Explores.leave (hnone : s.index node = none)
    (h : Explores next (s.enter node) s')
    (hgrounded : s'.reports = s.reports → Clean next s → Grounded next node) :
    Explores next s (s'.leave node) where
  visited := fun _ hmem => h.visited (List.mem_cons_of_mem _ hmem)
  path := h.path
  index := State.index_leave_of_enter hnone h.index
  reported := h.reported
  sound := h.sound
  clean := by
    intro heq hclean other hmem hother
    by_cases hsame : other = node
    · rw [hsame]
      exact hgrounded heq hclean
    · rw [s'.index_leave_of_ne hsame] at hother
      exact h.clean heq hclean.enter other hmem hother

end Steps

/-! ## Runs of the search -/

section Runs

variable [DecidableEq ν] {next : ν → List (ε × ν)} {nodes : List ν}

/-- A run ends, and in a state with the property. -/
def Ends (run : Option (State ν ε)) (post : State ν ε → Prop) : Prop :=
  ∃ s, run = some s ∧ post s

/-- What is assumed of the search from the nodes that edges lead to. -/
def Visits (next : ν → List (ε × ν)) (nodes : List ν) (depth : ℕ)
    (visit : ν → State ν ε → Option (State ν ε)) : Prop :=
  ∀ node s, node ∈ nodes → s.index node = none → OnPath next s node →
    remaining nodes s < depth →
    Ends (visit node s) fun s' => Explores next s s' ∧ node ∈ s'.visited

variable {depth : ℕ} {visit : ν → State ν ε → Option (State ν ε)} {node : ν}

theorem Visits.follow (hvisit : Visits next nodes depth visit) {s : State ν ε}
    {edge : ε × ν} (hedge : edge ∈ next node) (hmem : edge.2 ∈ nodes)
    (hpath : OnPath next s node) (hdepth : remaining nodes s < depth) :
    Ends (follow visit s edge) fun s' => Explores next s s' ∧
      (s'.reports = s.reports → Clean next s → Grounded next edge.2) := by
  obtain ⟨label, target⟩ := edge
  unfold CycleSearch.follow
  cases hidx : s.index target with
  | some idx =>
      refine ⟨_, rfl, (explores_report hpath hedge hidx).pop_push, fun heq => ?_⟩
      exact absurd heq (by simp [State.report, State.push, State.pop])
  | none =>
      simp only
      obtain ⟨s', hrun, hexplores, hvisited⟩ :=
        hvisit target (s.push label) hmem hidx (hpath.push hedge) hdepth
      rw [hrun]
      refine ⟨_, rfl, hexplores.pop_push, fun heq hclean => ?_⟩
      refine hexplores.clean heq hclean target hvisited ?_
      rw [hexplores.index]
      exact hidx

/-- After the loop over the edges of a node, all their targets are grounded. -/
theorem Visits.follows (hvisit : Visits next nodes depth visit) {edges : List (ε × ν)}
    {s : State ν ε} (hedges : ∀ edge ∈ edges, edge ∈ next node)
    (hmem : ∀ edge ∈ edges, edge.2 ∈ nodes) (hpath : OnPath next s node)
    (hdepth : remaining nodes s < depth) :
    Ends (edges.foldlM (CycleSearch.follow visit) s) fun s' => Explores next s s' ∧
      (s'.reports = s.reports → Clean next s → ∀ edge ∈ edges, Grounded next edge.2) := by
  induction edges generalizing s with
  | nil => exact ⟨s, rfl, .refl s, fun _ _ _ hedge => absurd hedge List.not_mem_nil⟩
  | cons edge edges ih =>
      rw [List.forall_mem_cons] at hedges hmem
      obtain ⟨s₁, hrun₁, hfirst, hground⟩ :=
        hvisit.follow hedges.1 hmem.1 hpath hdepth
      obtain ⟨s₂, hrun₂, hsecond, hgrounds⟩ := ih hedges.2 hmem.2 (hfirst.onPath hpath)
        (Nat.lt_of_le_of_lt (remaining_le nodes hfirst.visited) hdepth)
      refine ⟨s₂, ?_, hfirst.trans hsecond, fun heq hclean => ?_⟩
      · rw [List.foldlM_cons, hrun₁]
        exact hrun₂
      · obtain ⟨heq₁, heq₂⟩ := hfirst.reports_eq hsecond heq
        exact List.forall_mem_cons.mpr
          ⟨hground heq₁ hclean, hgrounds heq₂ (hfirst.clean heq₁ hclean)⟩

/-- A search that may go deeper than there are new nodes comes to an end. -/
theorem visits_search (hclosed : ∀ node ∈ nodes, ∀ edge ∈ next node, edge.2 ∈ nodes)
    (depth : ℕ) : Visits next nodes depth (search next depth) := by
  induction depth with
  | zero => exact fun _ _ _ _ _ hdepth => absurd hdepth (Nat.not_lt_zero _)
  | succ depth ih =>
      intro node s hnode hnone hpath hdepth
      rw [search]
      by_cases hvisited : node ∈ s.visited
      · rw [if_pos hvisited]
        exact ⟨s, rfl, .refl s, hvisited⟩
      · rw [if_neg hvisited]
        have hlt : remaining nodes (s.enter node) < depth :=
          Nat.lt_of_lt_of_le (remaining_enter_lt hnode hvisited) (Nat.lt_succ_iff.mp hdepth)
        obtain ⟨s', hrun, hexplores, hgrounds⟩ := ih.follows (fun _ hedge => hedge)
          (hclosed node hnode) hpath.enter hlt
        rw [hrun]
        refine ⟨_, rfl, hexplores.leave hnone fun heq hclean => ?_,
          hexplores.visited List.mem_cons_self⟩
        refine .intro _ fun target htarget => ?_
        obtain ⟨label, hedge⟩ := htarget
        exact hgrounds heq hclean.enter (label, target) hedge

theorem ends_searchAll (hclosed : ∀ node ∈ nodes, ∀ edge ∈ next node, edge.2 ∈ nodes)
    (hdepth : nodes.length < depth) {starts : List ν} {s : State ν ε}
    (hstarts : ∀ node ∈ starts, node ∈ nodes) (hnone : ∀ node, s.index node = none) :
    Ends (searchAll next depth starts s) fun s' =>
      Explores next s s' ∧ ∀ node ∈ starts, node ∈ s'.visited := by
  induction starts generalizing s with
  | nil => exact ⟨s, rfl, .refl s, fun _ hmem => absurd hmem List.not_mem_nil⟩
  | cons node starts ih =>
      rw [List.forall_mem_cons] at hstarts
      have hpath : OnPath next s node := by
        intro other idx hidx
        rw [hnone] at hidx
        cases hidx
      have hremaining : remaining nodes s < depth :=
        Nat.lt_of_le_of_lt (List.length_filter_le _ _) hdepth
      obtain ⟨s₁, hrun₁, hfirst, hvisited⟩ :=
        visits_search hclosed depth node s hstarts.1 (hnone node) hpath hremaining
      obtain ⟨s₂, hrun₂, hsecond, hothers⟩ := ih hstarts.2
        fun other => (congrFun hfirst.index other).trans (hnone other)
      refine ⟨s₂, ?_, hfirst.trans hsecond, ?_⟩
      · rw [searchAll, List.foldlM_cons, hrun₁]
        exact hrun₂
      · exact List.forall_mem_cons.mpr ⟨hsecond.visited hvisited, hothers⟩

theorem ends_followAll (hclosed : ∀ node ∈ nodes, ∀ edge ∈ next node, edge.2 ∈ nodes)
    (hdepth : nodes.length < depth) {starts : List (ε × ν)} {s : State ν ε}
    (hstarts : ∀ edge ∈ starts, edge.2 ∈ nodes) (hnone : ∀ node, s.index node = none) :
    Ends (followAll next depth starts s) fun s' =>
      Explores next s s' ∧ ∀ edge ∈ starts, edge.2 ∈ s'.visited := by
  induction starts generalizing s with
  | nil => exact ⟨s, rfl, .refl s, fun _ hmem => absurd hmem List.not_mem_nil⟩
  | cons edge starts ih =>
      rw [List.forall_mem_cons] at hstarts
      have hpath : OnPath next (s.push edge.1) edge.2 := by
        intro other idx hidx
        rw [show (s.push edge.1).index other = none from hnone other] at hidx
        cases hidx
      have hremaining : remaining nodes (s.push edge.1) < depth :=
        Nat.lt_of_le_of_lt (List.length_filter_le _ _) hdepth
      obtain ⟨s₁, hrun₁, hfirst, hvisited⟩ :=
        visits_search hclosed depth edge.2 (s.push edge.1) hstarts.1 (hnone edge.2) hpath
          hremaining
      have hpopped := hfirst.pop_push
      obtain ⟨s₂, hrun₂, hsecond, hothers⟩ := ih hstarts.2
        fun other => (congrFun hpopped.index other).trans (hnone other)
      refine ⟨s₂, ?_, hpopped.trans hsecond, ?_⟩
      · rw [followAll, List.foldlM_cons, follow, hnone, hrun₁]
        exact hrun₂
      · exact List.forall_mem_cons.mpr ⟨hsecond.visited hvisited, hothers⟩

omit [DecidableEq ν] in
/-- What a search that has visited all nodes with edges has reported. -/
theorem Explores.reports {s : State ν ε} (h : Explores next .start s)
    (hall : ∀ node, next node ≠ [] → node ∈ s.visited) :
    (s.reports ≠ [] ↔ ∃ node, Relation.TransGen (Edge next) node node) ∧
      ∀ report ∈ s.reports, IsCycle next report.1 report.2 := by
  have hsound : ∀ report ∈ s.reports, IsCycle next report.1 report.2 :=
    fun report hreport => (h.sound report hreport).resolve_left List.not_mem_nil
  refine ⟨⟨fun hne => ?_, ?_⟩, hsound⟩
  · obtain ⟨report, hreport⟩ := List.exists_mem_of_ne_nil _ hne
    exact ⟨report.1, (hsound report hreport).transGen⟩
  · rintro ⟨node, hcycle⟩ hempty
    have hmem : node ∈ s.visited := by
      obtain ⟨target, ⟨label, hedge⟩, -⟩ := Relation.TransGen.head'_iff.mp hcycle
      exact hall node (List.ne_nil_of_mem hedge)
    have hclean : Clean next s := h.clean hempty fun _ hmem => absurd hmem List.not_mem_nil
    exact (hclean node hmem (congrFun h.index node)).not_cycle hcycle

/-- The search from all nodes with edges ends.  It reports a path exactly if the graph has
a cycle, and each path that it reports is one. -/
theorem searchAll_reports (hclosed : ∀ node ∈ nodes, ∀ edge ∈ next node, edge.2 ∈ nodes)
    (hdepth : nodes.length < depth) {starts : List ν}
    (hstarts : ∀ node ∈ starts, node ∈ nodes)
    (hall : ∀ node, next node ≠ [] → node ∈ starts) :
    Ends (searchAll next depth starts .start) fun s =>
      (s.reports ≠ [] ↔ ∃ node, Relation.TransGen (Edge next) node node) ∧
      ∀ report ∈ s.reports, IsCycle next report.1 report.2 := by
  obtain ⟨s, hrun, hexplores, hvisited⟩ :=
    ends_searchAll hclosed hdepth hstarts State.index_start
  exact ⟨s, hrun, hexplores.reports fun node hnode => hvisited node (hall node hnode)⟩

theorem followAll_reports (hclosed : ∀ node ∈ nodes, ∀ edge ∈ next node, edge.2 ∈ nodes)
    (hdepth : nodes.length < depth) {starts : List (ε × ν)}
    (hstarts : ∀ edge ∈ starts, edge.2 ∈ nodes)
    (hall : ∀ node, next node ≠ [] → ∃ edge ∈ starts, edge.2 = node) :
    Ends (followAll next depth starts .start) fun s =>
      (s.reports ≠ [] ↔ ∃ node, Relation.TransGen (Edge next) node node) ∧
      ∀ report ∈ s.reports, IsCycle next report.1 report.2 := by
  obtain ⟨s, hrun, hexplores, hvisited⟩ :=
    ends_followAll hclosed hdepth hstarts State.index_start
  refine ⟨s, hrun, hexplores.reports fun node hnode => ?_⟩
  obtain ⟨edge, hedge, rfl⟩ := hall node hnode
  exact hvisited edge hedge

/-- In a finite graph without cycles, all nodes are grounded. -/
theorem grounded_of_acyclic (hclosed : ∀ node ∈ nodes, ∀ edge ∈ next node, edge.2 ∈ nodes)
    (hall : ∀ node, next node ≠ [] → node ∈ nodes)
    (hacyclic : ∀ node, ¬ Relation.TransGen (Edge next) node node) (node : ν) :
    Grounded next node := by
  by_cases hnode : node ∈ nodes
  · obtain ⟨s, -, hexplores, hvisited⟩ := ends_searchAll hclosed
      (Nat.lt_succ_self nodes.length) (fun _ hmem => hmem) State.index_start
    have hempty : s.reports = [] := by
      by_contra hne
      have hreports := hexplores.reports fun node hnode => hvisited node (hall node hnode)
      obtain ⟨other, hcycle⟩ := hreports.1.mp hne
      exact hacyclic other hcycle
    have hclean : Clean next s :=
      hexplores.clean hempty fun _ hmem => absurd hmem List.not_mem_nil
    exact hclean node (hvisited node hnode) (congrFun hexplores.index node)
  · refine .intro _ fun target htarget => ?_
    obtain ⟨label, hedge⟩ := htarget
    exact absurd (hall node (List.ne_nil_of_mem hedge)) hnode

end Runs

/-! ## Programs in step with the search -/

section Simulation

variable {σ τ α β : Type*} {r : σ → τ → Prop}

theorem rel_map {a : Option σ} {b : Option τ} {f : σ → σ} {g : τ → τ}
    (h : Option.Rel r a b) (hstep : ∀ s t, r s t → r (f s) (g t)) :
    Option.Rel r (a.map f) (b.map g) := by
  cases h with
  | some h => exact .some (hstep _ _ h)
  | none => exact .none

/-- A loop keeps in step with one over those of its items that count. -/
theorem rel_foldlM_filterMap {f : σ → α → Option σ} {g : τ → β → Option τ}
    {choose : α → Option β} {items : List α}
    (hskip : ∀ item, choose item = none → ∀ s, f s item = some s)
    (hstep : ∀ item other, choose item = some other → ∀ s t, r s t →
      Option.Rel r (f s item) (g t other)) {s : σ} {t : τ} (h : r s t) :
    Option.Rel r (items.foldlM f s) ((items.filterMap choose).foldlM g t) := by
  induction items generalizing s t with
  | nil => exact .some h
  | cons item rest ih =>
      rw [List.foldlM_cons]
      cases hitem : choose item with
      | none =>
          rw [List.filterMap_cons_none hitem, hskip item hitem s]
          exact ih h
      | some other =>
          rw [List.filterMap_cons_some hitem, List.foldlM_cons]
          have hfirst := hstep item other hitem s t h
          generalize f s item = a at hfirst ⊢
          generalize g t other = b at hfirst ⊢
          cases hfirst with
          | some h => exact ih h
          | none => exact .none

end Simulation

end GraphqlCore.CycleSearch
