import GraphqlCore.Language.Visitor
import Mathlib.Tactic.Common

/-!
# The loop of the visitor as a recursion

The stack of the loop holds one frame for each open node.  Here the frames are the calls of a
recursive function: it visits the children of a node with an empty list of edits, and hands
its own edits on to the next sibling.  The loop and the recursion have the same results, and
the one comes to an end when the other does.
-/

namespace GraphqlCore.Language.Visiting

variable {σ : Type}

/-! ## Places -/

/-- Where a node is visited: the arguments of its methods other than the node. -/
structure Place where
  key : Option Key
  parent : AstValue
  path : List Key
  ancestors : List AstValue

namespace Place

def root : Place := ⟨none, .none, [], []⟩

def args (place : Place) (node : AstValue) : VisitArgs :=
  ⟨node, place.key, place.parent, place.path, place.ancestors⟩

/-- The ancestors of the children. -/
def lineage (place : Place) : List AstValue :=
  if place.parent.truthy then place.ancestors ++ [place.parent] else place.ancestors

def child (place : Place) (node : AstValue) (key : Key) : Place where
  key := some key
  parent := node
  path := place.path ++ [key]
  ancestors := place.lineage

end Place

/-- The visited children of a node or tuple with their keys. -/
def AstValue.children (visitorKeys : VisitorKeyMap) (node : AstValue) :
    List (Key × AstValue) :=
  match node with
  | .tuple items => items.zipIdx.map fun (item, idx) => (.index idx, item)
  | .node _ kind _ => (visitorKeys kind).map fun name => (.name name, node.getAttr name)
  | _ => []

/-! ## The recursion -/

/-- How the visit of one node or of several siblings ends: out of fuel, with an error, with
`BREAK` and the edits of the innermost frame, or with the edits of the frame so far. -/
inductive Outcome (σ : Type)
  | exhausted
  | raised (error : VisitError) (world : World σ)
  | broke (edits : List Edit) (world : World σ)
  | done (edits : List Edit) (world : World σ)

namespace Outcome

/-- Go on when the first part is done. -/
def andThen (outcome : Outcome σ) (rest : List Edit → World σ → Outcome σ) : Outcome σ :=
  match outcome with
  | .done edits world => rest edits world
  | outcome => outcome

@[simp]
theorem andThen_done {edits : List Edit} {world : World σ}
    {rest : List Edit → World σ → Outcome σ} :
    (done edits world).andThen rest = rest edits world := rfl

@[simp]
theorem andThen_exhausted {rest : List Edit → World σ → Outcome σ} :
    exhausted.andThen rest = exhausted := rfl

@[simp]
theorem andThen_raised {error : VisitError} {world : World σ}
    {rest : List Edit → World σ → Outcome σ} :
    (raised error world).andThen rest = raised error world := rfl

@[simp]
theorem andThen_broke {edits : List Edit} {world : World σ}
    {rest : List Edit → World σ → Outcome σ} :
    (broke edits world).andThen rest = broke edits world := rfl

/-- What `visit` returns. -/
def result (root : AstValue) : Outcome σ → Option (Except VisitError AstValue × World σ)
  | .exhausted => none
  | .raised error world => some (.error error, world)
  | .broke edits world => some (.ok (resultOf root edits), world)
  | .done edits world => some (.ok (resultOf root edits), world)

end Outcome

/-- The children from left to right; one that is `None` is no child. -/
def visitChildren (visitNode : Place → AstValue → List Edit → World σ → Outcome σ)
    (place : Place) (node : AstValue) :
    List (Key × AstValue) → List Edit → World σ → Outcome σ
  | [], edits, world => .done edits world
  | (key, child) :: rest, edits, world =>
      if child = .none then visitChildren visitNode place node rest edits world
      else (visitNode (place.child node key) child edits world).andThen
        (visitChildren visitNode place node rest)

/-- A node with its edited children. -/
def withEdits (node : AstValue) (edits : List Edit) (world : World σ) : AstValue × World σ :=
  if edits.isEmpty then (node, world) else rebuild node edits world

/-- What leaving a node does to the edits of its parent. -/
def leaveNode (visitor : Visitor σ) (place : Place) (node : AstValue)
    (childEdits edits : List Edit) (world : World σ) : Outcome σ :=
  let (node, world) := withEdits node childEdits world
  match callVisitor visitor true (place.args node) world with
  | .error error => .raised error world
  | .ok (result, world) =>
      match result.answer with
      | .brk => .broke edits world
      | .skip => .done edits world
      | .edit value => .done (edits ++ [(place.key, value)]) world
      | .idle =>
          .done (if childEdits.isEmpty then edits else edits ++ [(place.key, node)]) world

/-- The path is popped; there is nothing to pop for the root. -/
def passOver (place : Place) (edits : List Edit) (world : World σ) : Outcome σ :=
  if place.path.isEmpty then .raised .indexError world else .done edits world

/-- Visit a node, with fuel for the depth below it. -/
def visitNode (visitorKeys : VisitorKeyMap) (visitor : Visitor σ) :
    ℕ → Place → AstValue → List Edit → World σ → Outcome σ
  | 0, _, _, _, _ => .exhausted
  | fuel + 1, place, node, edits, world =>
      let descend (node : AstValue) (edits : List Edit) (world : World σ) : Outcome σ :=
        (visitChildren (visitNode visitorKeys visitor fuel) place node
          (node.children visitorKeys) [] world).andThen
          fun childEdits world => leaveNode visitor place node childEdits edits world
      match callVisitor visitor false (place.args node) world with
      | .error error => .raised error world
      | .ok (result, world) =>
          match result.answer with
          | .brk => .broke edits world
          | .skip => passOver place edits world
          | .edit value =>
              let edits := edits ++ [(place.key, value)]
              if value.isNode then descend value edits world else passOver place edits world
          | .idle => descend node edits world

/-! ## Runs of the loop -/

section Runs

variable {visitorKeys : VisitorKeyMap} {visitor : Visitor σ} {root : AstValue}
variable {loop loop' : Loop σ} {m n : ℕ}

theorem run_add (h : run visitorKeys visitor root m loop = .next loop') :
    run visitorKeys visitor root (m + n) loop = run visitorKeys visitor root n loop' := by
  induction m generalizing loop with
  | zero =>
      cases h
      rw [Nat.zero_add]
  | succ m ih =>
      rw [Nat.succ_add, run]
      rw [run] at h
      cases hstep : step visitorKeys visitor root loop with
      | next between =>
          rw [hstep] at h
          exact ih h
      | stop result world =>
          rw [hstep] at h
          nomatch h

theorem run_add_stop {result : Except VisitError AstValue} {world : World σ}
    (h : run visitorKeys visitor root m loop = .stop result world) :
    run visitorKeys visitor root (m + n) loop = .stop result world := by
  induction m generalizing loop with
  | zero => nomatch h
  | succ m ih =>
      rw [Nat.succ_add, run]
      rw [run] at h
      cases hstep : step visitorKeys visitor root loop with
      | next between =>
          rw [hstep] at h
          exact ih h
      | stop result' world' =>
          rw [hstep] at h
          exact h

variable (visitorKeys visitor root)

/-- The loop comes to this step after some turns. -/
def Comes (loop : Loop σ) (last : Step σ) : Prop :=
  ∃ turns, run visitorKeys visitor root turns loop = last

/-- The loop is not at its end after so many turns. -/
def Lasts (turns : ℕ) (loop : Loop σ) : Prop :=
  ∃ loop', run visitorKeys visitor root turns loop = .next loop'

/-- The loop does what the recursion says, where `after` is the step that a visit which is
done leads to.  Without fuel the loop goes on for at least as many turns. -/
def Simulates (fuel : ℕ) (loop : Loop σ) (after : List Edit → World σ → Step σ) :
    Outcome σ → Prop
  | .exhausted => Lasts visitorKeys visitor root fuel loop
  | .raised error world => Comes visitorKeys visitor root loop (.stop (.error error) world)
  | .broke edits world =>
      Comes visitorKeys visitor root loop (.stop (.ok (resultOf root edits)) world)
  | .done edits world => Comes visitorKeys visitor root loop (after edits world)

variable {visitorKeys visitor root}

theorem Comes.here {loop : Loop σ} : Comes visitorKeys visitor root loop (.next loop) :=
  ⟨0, rfl⟩

theorem Comes.trans {last : Step σ} (h : Comes visitorKeys visitor root loop (.next loop'))
    (h' : Comes visitorKeys visitor root loop' last) :
    Comes visitorKeys visitor root loop last := by
  obtain ⟨m, hm⟩ := h
  obtain ⟨n, hn⟩ := h'
  exact ⟨m + n, (run_add hm).trans hn⟩

theorem Comes.of_step {last : Step σ} (h : step visitorKeys visitor root loop = last) :
    Comes visitorKeys visitor root loop last := by
  refine ⟨1, ?_⟩
  rw [run, h]
  cases last <;> rfl

theorem Lasts.mono (h : Lasts visitorKeys visitor root n loop) (hle : m ≤ n) :
    Lasts visitorKeys visitor root m loop := by
  obtain ⟨last, hlast⟩ := h
  cases hm : run visitorKeys visitor root m loop with
  | next between => exact ⟨between, hm⟩
  | stop result world =>
      have hstop := run_add_stop (n := n - m) hm
      rw [Nat.add_sub_cancel' hle, hlast] at hstop
      nomatch hstop

theorem Lasts.later (h : Comes visitorKeys visitor root loop (.next loop'))
    (h' : Lasts visitorKeys visitor root n loop') : Lasts visitorKeys visitor root n loop := by
  obtain ⟨m, hm⟩ := h
  obtain ⟨last, hlast⟩ := h'
  have hsum : Lasts visitorKeys visitor root (m + n) loop := ⟨last, (run_add hm).trans hlast⟩
  exact hsum.mono (Nat.le_add_left n m)

theorem Lasts.step (h : step visitorKeys visitor root loop = .next loop')
    (h' : Lasts visitorKeys visitor root n loop') :
    Lasts visitorKeys visitor root (n + 1) loop := by
  obtain ⟨last, hlast⟩ := h'
  refine ⟨last, ?_⟩
  rw [run, h]
  exact hlast

variable {after : List Edit → World σ → Step σ} {outcome : Outcome σ}

theorem Simulates.later (h : Comes visitorKeys visitor root loop (.next loop'))
    (h' : Simulates visitorKeys visitor root n loop' after outcome) :
    Simulates visitorKeys visitor root n loop after outcome := by
  cases outcome with
  | exhausted => exact Lasts.later h h'
  | raised error world => exact h.trans h'
  | broke edits world => exact h.trans h'
  | done edits world => exact h.trans h'

theorem Simulates.step (h : step visitorKeys visitor root loop = .next loop')
    (h' : Simulates visitorKeys visitor root n loop' after outcome) :
    Simulates visitorKeys visitor root (n + 1) loop after outcome := by
  cases outcome with
  | exhausted => exact Lasts.step h h'
  | raised error world => exact (Comes.of_step h).trans h'
  | broke edits world => exact (Comes.of_step h).trans h'
  | done edits world => exact (Comes.of_step h).trans h'

/-- Two visits in a row. -/
theorem Simulates.andThen {between : List Edit → World σ → Loop σ}
    {rest : List Edit → World σ → Outcome σ}
    (h : Simulates visitorKeys visitor root n loop
      (fun edits world => .next (between edits world)) outcome)
    (hrest : ∀ edits world,
      Simulates visitorKeys visitor root n (between edits world) after (rest edits world)) :
    Simulates visitorKeys visitor root n loop after (outcome.andThen rest) := by
  cases outcome with
  | exhausted => exact h
  | raised error world => exact h
  | broke edits world => exact h
  | done edits world => exact Simulates.later h (hrest edits world)

end Runs

/-! ## Frames -/

/-- The frame of the parent while one of its children is visited. -/
structure Home where
  stack : List Stack
  inArray : Bool
  idx : ℕ
  keys : Keys

namespace Home

/-- The loop at the parent. -/
def loop (home : Home) (place : Place) (edits : List Edit) (world : World σ) : Loop σ where
  stack := home.stack
  inArray := home.inArray
  keys := home.keys
  idx := home.idx
  edits := edits
  parent := place.parent
  path := place.path.dropLast
  ancestors := place.ancestors
  world := world

/-- The loop at the children of a node. -/
def inside (home : Home) (visitorKeys : VisitorKeyMap) (place : Place) (node : AstValue)
    (edits : List Edit) (idx : ℕ) (childEdits : List Edit) (world : World σ) : Loop σ where
  stack := ⟨home.inArray, home.idx, home.keys, edits⟩ :: home.stack
  inArray := node.isTuple
  keys := match node with
    | .tuple items => .nodes items
    | .node _ kind _ => .names (visitorKeys kind)
    | _ => .names []
  idx := idx
  edits := childEdits
  parent := node
  path := place.path
  ancestors := place.lineage
  world := world

/-- The step after a node was dealt with. -/
def after (home : Home) (root : AstValue) (place : Place) (edits : List Edit)
    (world : World σ) : Step σ :=
  if home.stack.isEmpty then .stop (.ok (resultOf root edits)) world
  else .next (home.loop place edits world)

/-- The place belongs to the frame: it is the root, or a child of a node. -/
def Holds (home : Home) (place : Place) : Prop :=
  (home.stack = [] ∧ place = .root) ∨
    (home.stack ≠ [] ∧ place.parent.truthy ∧
      ∃ key, place.key = some key ∧ place.path.getLast? = some key)

/-- The turn that enters or leaves a node. -/
def turn (home : Home) (place : Place) (edits : List Edit) (world : World σ)
    (isLeaving isEdited : Bool) (node : AstValue) : Turn σ where
  loop := { home.loop place edits world with path := place.path }
  isLeaving := isLeaving
  isEdited := isEdited
  key := place.key
  node := node

/-- The frame of the children of a node, with the child before `idx` being visited. -/
def down (home : Home) (visitorKeys : VisitorKeyMap) (node : AstValue) (edits : List Edit)
    (idx : ℕ) : Home where
  stack := ⟨home.inArray, home.idx, home.keys, edits⟩ :: home.stack
  inArray := node.isTuple
  idx := idx
  keys := match node with
    | .tuple items => .nodes items
    | .node _ kind _ => .names (visitorKeys kind)
    | _ => .names []

variable {home : Home} {visitorKeys : VisitorKeyMap} {place : Place} {node : AstValue}
variable {edits childEdits : List Edit} {idx : ℕ} {key : Key} {world : World σ}

theorem loop_down : (home.down visitorKeys node edits idx).loop (place.child node key)
    childEdits world = home.inside visitorKeys place node edits idx childEdits world := by
  simp [loop, down, inside, Place.child]

theorem holds_down (h : node.truthy) :
    (home.down visitorKeys node edits idx).Holds (place.child node key) :=
  Or.inr ⟨by simp [down], h, key, rfl, by simp [Place.child]⟩

theorem after_down {root : AstValue} :
    (home.down visitorKeys node edits idx).after root (place.child node key) childEdits world =
      .next (home.inside visitorKeys place node edits idx childEdits world) := by
  rw [after, loop_down]
  rfl

/-! ### The children of an open node -/

theorem length_inside :
    (home.inside visitorKeys place node edits idx childEdits world).keys.length =
      (node.children visitorKeys).length := by
  cases node <;> simp [inside, Keys.length, AstValue.children]

theorem truthy_of_child (h : idx < (node.children visitorKeys).length) : node.truthy := by
  cases node with
  | tuple items =>
      cases items with
      | nil => simp [AstValue.children] at h
      | cons item items => rfl
  | node ref kind attributes => rfl
  | _ => simp [AstValue.children] at h

theorem child_inside (h : idx < (node.children visitorKeys).length) :
    (home.inside visitorKeys place node edits idx childEdits world).child =
      some (node.children visitorKeys)[idx] := by
  cases node with
  | tuple items =>
      have hidx : idx < items.length := by simpa [AstValue.children] using h
      simp [inside, Loop.child, AstValue.isTuple, AstValue.children, AstValue.item, hidx]
  | node ref kind attributes =>
      have hidx : idx < (visitorKeys kind).length := by simpa [AstValue.children] using h
      simp [inside, Loop.child, AstValue.isTuple, AstValue.children, Keys.name?, hidx]
  | _ => simp [AstValue.children] at h

end Home

/-! ## Simulation -/

section Simulation

variable {visitorKeys : VisitorKeyMap} {visitor : Visitor σ} {root : AstValue}
variable {home : Home} {place : Place} {node : AstValue} {edits childEdits : List Edit}
variable {idx n : ℕ} {world : World σ}

theorem step_leave (hholds : home.Holds place)
    (hidx : idx = (node.children visitorKeys).length) :
    step visitorKeys visitor root
        (home.inside visitorKeys place node edits idx childEdits world) =
      (home.turn place edits (withEdits node childEdits world).2 true (!childEdits.isEmpty)
        (withEdits node childEdits world).1).act visitorKeys visitor root := by
  have hlen : (home.inside visitorKeys place node edits idx childEdits world).idx =
      (home.inside visitorKeys place node edits idx childEdits world).keys.length := by
    rw [Home.length_inside]
    exact hidx
  have hframe : (home.inside visitorKeys place node edits idx childEdits world).leaveFrame =
      .ok (home.turn place edits (withEdits node childEdits world).2 true
        (!childEdits.isEmpty) (withEdits node childEdits world).1) := by
    rcases hholds with ⟨-, rfl⟩ | ⟨-, hparent, key, hkey, hlast⟩
    · cases hempty : childEdits.isEmpty <;>
        simp [Loop.leaveFrame, Home.inside, Home.turn, Home.loop, withEdits, Place.root,
          Place.lineage, AstValue.truthy, hempty]
    · cases hempty : childEdits.isEmpty <;>
        simp [Loop.leaveFrame, Home.inside, Home.turn, Home.loop, withEdits,
          Place.lineage, hparent, hkey, hlast, hempty]
  rw [step, Loop.arrive, if_pos hlen, hframe]
  rfl

theorem turn_record {isLeaving isEdited : Bool} {value : AstValue} :
    (home.turn place edits world isLeaving isEdited node).record value =
      home.turn place (edits ++ [(place.key, value)]) world isLeaving isEdited node := rfl

theorem proceed_leave {isEdited : Bool} :
    (home.turn place edits world true isEdited node).proceed visitorKeys root =
      home.after root place edits world := rfl

/-- The turn that leaves a node. -/
theorem act_leave : (home.turn place edits world true (!childEdits.isEmpty) node).act
    visitorKeys visitor root =
      match callVisitor visitor true (place.args node) world with
      | .error error => .stop (.error error) world
      | .ok (result, world) =>
          match result.answer with
          | .brk => .stop (.ok (resultOf root edits)) world
          | .skip => home.after root place edits world
          | .edit value => home.after root place (edits ++ [(place.key, value)]) world
          | .idle => home.after root place
              (if childEdits.isEmpty then edits else edits ++ [(place.key, node)]) world := by
  rw [Turn.act]
  change (match callVisitor visitor true (place.args node) world with
    | .error error => _
    | .ok (result, world) => (home.turn place edits world true (!childEdits.isEmpty) node).react
        visitorKeys root result) = _
  cases callVisitor visitor true (place.args node) world with
  | error error => rfl
  | ok called =>
      obtain ⟨result, world'⟩ := called
      dsimp only
      rw [Turn.react]
      cases result.answer with
      | idle => cases childEdits.isEmpty <;> rfl
      | _ => rfl

theorem simulates_leave (hholds : home.Holds place)
    (hidx : idx = (node.children visitorKeys).length) :
    Simulates visitorKeys visitor root n
      (home.inside visitorKeys place node edits idx childEdits world)
      (home.after root place) (leaveNode visitor place node childEdits edits world) := by
  have hstep : step visitorKeys visitor root
      (home.inside visitorKeys place node edits idx childEdits world) = _ :=
    (step_leave hholds hidx).trans act_leave
  unfold leaveNode
  cases hcall : callVisitor visitor true
      (place.args (withEdits node childEdits world).1) (withEdits node childEdits world).2 with
  | error error =>
      simp only [hcall] at hstep ⊢
      exact Comes.of_step hstep
  | ok called =>
      obtain ⟨result, world'⟩ := called
      cases hanswer : result.answer with
      | brk =>
          simp only [hcall, hanswer] at hstep ⊢
          exact Comes.of_step hstep
      | skip =>
          simp only [hcall, hanswer] at hstep ⊢
          exact Comes.of_step hstep
      | edit value =>
          simp only [hcall, hanswer] at hstep ⊢
          exact Comes.of_step hstep
      | idle =>
          simp only [hcall, hanswer] at hstep ⊢
          exact Comes.of_step hstep

/-- The turn that enters a node. -/
theorem act_enter : (home.turn place edits world false false node).act visitorKeys visitor root =
    match callVisitor visitor false (place.args node) world with
    | .error error => .stop (.error error) world
    | .ok (result, world) =>
        match result.answer with
        | .brk => .stop (.ok (resultOf root edits)) world
        | .skip => (home.turn place edits world false false node).passOver
        | .edit value =>
            if value.isNode then
              .next (home.inside visitorKeys place value (edits ++ [(place.key, value)]) 0 [] world)
            else
              (home.turn place (edits ++ [(place.key, value)]) world false false node).passOver
        | .idle => .next (home.inside visitorKeys place node edits 0 [] world) := by
  rw [Turn.act]
  change (match callVisitor visitor false (place.args node) world with
    | .error error => _
    | .ok (result, world) => (home.turn place edits world false false node).react
        visitorKeys root result) = _
  cases callVisitor visitor false (place.args node) world with
  | error error => rfl
  | ok called =>
      obtain ⟨result, world'⟩ := called
      dsimp only
      rw [Turn.react]
      cases result.answer <;> rfl

theorem simulates_passOver (hholds : home.Holds place) {loop : Loop σ}
    (hstep : step visitorKeys visitor root loop =
      (home.turn place edits world false false node).passOver) :
    Simulates visitorKeys visitor root n loop (home.after root place)
      (passOver place edits world) := by
  rcases hholds with ⟨-, rfl⟩ | ⟨hstack, -, key, -, hlast⟩
  · exact Comes.of_step hstep
  · have hpath : place.path.isEmpty = false := by
      cases hpath : place.path with
      | nil => simp [hpath] at hlast
      | cons key path => rfl
    have hafter : home.after root place edits world = .next (home.loop place edits world) := by
      simp [Home.after, hstack]
    have hturn : (home.turn place edits world false false node).passOver =
        .next (home.loop place edits world) := by
      simp [Turn.passOver, Home.turn, Home.loop, hpath]
    rw [passOver, hpath, if_neg Bool.false_ne_true]
    change Comes visitorKeys visitor root loop (home.after root place edits world)
    rw [hafter, ← hturn]
    exact Comes.of_step hstep

/-- The step of the loop at a child. -/
theorem step_child (hidx : idx < (node.children visitorKeys).length) :
    step visitorKeys visitor root
        (home.inside visitorKeys place node edits idx childEdits world) =
      if (node.children visitorKeys)[idx].2 = .none then
        .next (home.inside visitorKeys place node edits (idx + 1) childEdits world)
      else
        ((home.down visitorKeys node edits (idx + 1)).turn
          (place.child node (node.children visitorKeys)[idx].1) childEdits world false false
          (node.children visitorKeys)[idx].2).act visitorKeys visitor root := by
  have hlen : ¬(home.inside visitorKeys place node edits idx childEdits world).idx =
      (home.inside visitorKeys place node edits idx childEdits world).keys.length := by
    rw [Home.length_inside]
    exact Nat.ne_of_lt hidx
  have hchild : (home.inside visitorKeys place node edits idx childEdits world).child =
      some (node.children visitorKeys)[idx] := Home.child_inside hidx
  have htruthy : (home.inside visitorKeys place node edits idx childEdits world).parent.truthy :=
    Home.truthy_of_child hidx
  rw [step, Loop.arrive, if_neg hlen, Loop.enterChild, if_pos htruthy, hchild]
  obtain ⟨key, child⟩ := (node.children visitorKeys)[idx]
  have hturn : ∀ value : AstValue,
      ({ loop := { home.inside visitorKeys place node edits idx childEdits world with
            idx := (home.inside visitorKeys place node edits idx childEdits world).idx + 1
            path := (home.inside visitorKeys place node edits idx childEdits world).path ++ [key] }
         isLeaving := false
         isEdited := false
         key := some key
         node := value } : Turn σ) =
      (home.down visitorKeys node edits (idx + 1)).turn (place.child node key) childEdits world
        false false value := fun value => rfl
  cases child with
  | none => rfl
  | _ =>
      rw [if_neg (fun h => nomatch h)]
      simp only [hturn]

/-- A visit of children, given that the visits of nodes are simulated. -/
theorem simulates_children
    (hnode : ∀ (home : Home) (place : Place) (node : AstValue) (edits : List Edit)
      (world : World σ) (loop : Loop σ), home.Holds place →
      step visitorKeys visitor root loop =
        (home.turn place edits world false false node).act visitorKeys visitor root →
      Simulates visitorKeys visitor root n loop (home.after root place)
        (visitNode visitorKeys visitor n place node edits world))
    (rest : List (Key × AstValue)) (hrest : rest = (node.children visitorKeys).drop idx)
    (hle : idx ≤ (node.children visitorKeys).length) :
    Simulates visitorKeys visitor root n
      (home.inside visitorKeys place node edits idx childEdits world)
      (fun childEdits world => .next
        (home.inside visitorKeys place node edits (node.children visitorKeys).length
          childEdits world))
      (visitChildren (visitNode visitorKeys visitor n) place node rest childEdits world) := by
  induction rest generalizing idx childEdits world with
  | nil =>
      have hidx : idx = (node.children visitorKeys).length := by
        have hlen := congrArg List.length hrest
        rw [List.length_nil, List.length_drop] at hlen
        omega
      subst hidx
      exact Comes.here
  | cons child rest ih =>
      have hidx : idx < (node.children visitorKeys).length := by
        have hlen := congrArg List.length hrest
        rw [List.length_cons, List.length_drop] at hlen
        omega
      rw [List.drop_eq_getElem_cons hidx] at hrest
      injection hrest with hchild hrest
      have hstep : step visitorKeys visitor root
          (home.inside visitorKeys place node edits idx childEdits world) = _ := step_child hidx
      rw [← hchild] at hstep
      obtain ⟨key, child⟩ := child
      rw [visitChildren]
      by_cases hnone : child = .none
      · rw [if_pos hnone] at hstep ⊢
        exact Simulates.later (Comes.of_step hstep) (ih hrest hidx)
      · rw [if_neg hnone] at hstep ⊢
        have hholds : (home.down visitorKeys node edits (idx + 1)).Holds
            (place.child node key) := Home.holds_down (Home.truthy_of_child hidx)
        have hfirst := hnode _ _ child childEdits world _ hholds hstep
        have hafter : (home.down visitorKeys node edits (idx + 1)).after root
            (place.child node key) = fun (childEdits : List Edit) (world : World σ) =>
              .next (home.inside visitorKeys place node edits (idx + 1) childEdits world) := by
          funext childEdits world
          exact Home.after_down
        rw [hafter] at hfirst
        exact Simulates.andThen hfirst fun childEdits world => ih hrest hidx

/-- A visit of a node, from the turn that enters it. -/
theorem simulates_node : ∀ (n : ℕ) (home : Home) (place : Place) (node : AstValue)
    (edits : List Edit) (world : World σ) (loop : Loop σ), home.Holds place →
    step visitorKeys visitor root loop =
      (home.turn place edits world false false node).act visitorKeys visitor root →
    Simulates visitorKeys visitor root n loop (home.after root place)
      (visitNode visitorKeys visitor n place node edits world) := by
  intro n
  induction n with
  | zero =>
      intro home place node edits world loop hholds hstep
      exact ⟨loop, rfl⟩
  | succ n ih =>
      intro home place node edits world loop hholds hstep
      have hdescend : ∀ (node : AstValue) (edits : List Edit) (world : World σ),
          Simulates visitorKeys visitor root n
            (home.inside visitorKeys place node edits 0 [] world) (home.after root place)
            ((visitChildren (visitNode visitorKeys visitor n) place node
              (node.children visitorKeys) [] world).andThen
              fun childEdits world => leaveNode visitor place node childEdits edits world) := by
        intro node edits world
        have hchildren : Simulates visitorKeys visitor root n
            (home.inside visitorKeys place node edits 0 [] world) _ _ :=
          simulates_children ih (node.children visitorKeys) rfl (Nat.zero_le _)
        exact Simulates.andThen hchildren fun childEdits world => simulates_leave hholds rfl
      rw [act_enter] at hstep
      rw [visitNode]
      cases hcall : callVisitor visitor false (place.args node) world with
      | error error =>
          simp only [hcall] at hstep ⊢
          exact Comes.of_step hstep
      | ok called =>
          obtain ⟨result, world'⟩ := called
          simp only [hcall] at hstep ⊢
          cases hanswer : result.answer with
          | brk =>
              simp only [hanswer] at hstep ⊢
              exact Comes.of_step hstep
          | skip =>
              simp only [hanswer] at hstep ⊢
              exact simulates_passOver hholds hstep
          | edit value =>
              simp only [hanswer] at hstep ⊢
              cases hvalue : value.isNode with
              | true =>
                  rw [hvalue, if_pos rfl] at hstep
                  exact Simulates.step hstep (hdescend _ _ _)
              | false =>
                  rw [hvalue, if_neg Bool.false_ne_true] at hstep
                  exact simulates_passOver hholds hstep
          | idle =>
              simp only [hanswer] at hstep ⊢
              exact Simulates.step hstep (hdescend _ _ _)

end Simulation

/-! ## The traversal as a whole -/

section Traversal

variable {visitorKeys : VisitorKeyMap} {visitor : Visitor σ} {root : AstValue}

/-- The frame around the root. -/
def Home.ofRoot (root : AstValue) : Home := ⟨[], false, 1, .nodes [root]⟩

variable (visitorKeys visitor root) in
theorem simulates_root (n : ℕ) (world : World σ) :
    Simulates visitorKeys visitor root n (.start root world)
      ((Home.ofRoot root).after root .root)
      (visitNode visitorKeys visitor n .root root [] world) :=
  simulates_node n (Home.ofRoot root) .root root [] world _ (Or.inl ⟨rfl, rfl⟩) rfl

theorem comes_unique {loop : Loop σ} {result result' : Except VisitError AstValue}
    {world world' : World σ}
    (h : Comes visitorKeys visitor root loop (.stop result world))
    (h' : Comes visitorKeys visitor root loop (.stop result' world')) :
    result = result' ∧ world = world' := by
  obtain ⟨m, hm⟩ := h
  obtain ⟨n, hn⟩ := h'
  have hsum := run_add_stop (n := n) hm
  rw [Nat.add_comm, run_add_stop hn] at hsum
  injection hsum with hresult hworld
  exact ⟨hresult.symm, hworld.symm⟩

/-- The loop ends with a result exactly when the recursion does, given enough fuel. -/
theorem visits_iff {world world' : World σ} {result : Except VisitError AstValue}
    (hroot : root.isNode) : Visits visitorKeys visitor root world result world' ↔
      ∃ fuel, (visitNode visitorKeys visitor fuel .root root [] world).result root =
        some (result, world') := by
  have hcomes : Visits visitorKeys visitor root world result world' ↔
      Comes visitorKeys visitor root (.start root world) (.stop result world') := by
    simp only [Visits, visit, if_pos hroot, Comes]
  have hresult : ∀ (fuel : ℕ) (result : Except VisitError AstValue) (world' : World σ),
      (visitNode visitorKeys visitor fuel .root root [] world).result root =
        some (result, world') →
      Comes visitorKeys visitor root (.start root world) (.stop result world') := by
    intro fuel result world' h
    have hsimulates := simulates_root visitorKeys visitor root fuel world
    cases houtcome : visitNode visitorKeys visitor fuel .root root [] world with
    | exhausted => simp [houtcome, Outcome.result] at h
    | raised error world'' =>
        simp only [houtcome, Outcome.result, Option.some.injEq, Prod.mk.injEq] at h
        rw [houtcome] at hsimulates
        obtain ⟨rfl, rfl⟩ := h
        exact hsimulates
    | broke edits world'' =>
        simp only [houtcome, Outcome.result, Option.some.injEq, Prod.mk.injEq] at h
        rw [houtcome] at hsimulates
        obtain ⟨rfl, rfl⟩ := h
        exact hsimulates
    | done edits world'' =>
        simp only [houtcome, Outcome.result, Option.some.injEq, Prod.mk.injEq] at h
        rw [houtcome] at hsimulates
        obtain ⟨rfl, rfl⟩ := h
        exact hsimulates
  rw [hcomes]
  constructor
  · rintro ⟨turns, hturns⟩
    have hsimulates := simulates_root visitorKeys visitor root turns world
    cases hfinal : (visitNode visitorKeys visitor turns .root root [] world).result root with
    | none =>
        cases houtcome : visitNode visitorKeys visitor turns .root root [] world with
        | exhausted =>
            rw [houtcome] at hsimulates
            obtain ⟨loop, hloop⟩ := hsimulates
            rw [hloop] at hturns
            nomatch hturns
        | _ => simp [houtcome, Outcome.result] at hfinal
    | some final =>
        obtain ⟨result', world''⟩ := final
        obtain ⟨rfl, rfl⟩ := comes_unique ⟨turns, hturns⟩ (hresult turns _ _ hfinal)
        exact ⟨turns, hfinal⟩
  · rintro ⟨fuel, hfuel⟩
    exact hresult fuel _ _ hfuel

end Traversal

end GraphqlCore.Language.Visiting
