import GraphqlCore.Language.ParallelVisitor

/-!
# Skipped subtrees in a parallel visit with edits

A parallel visitor that edits nodes remembers a skipped node by its identity, while what it
means to remember is the place.  The visitor that remembers places is stated here, and the
calls of the two are the same as long as no edit is made at or below a skipped place.
-/

namespace GraphqlCore.Language.Visiting

variable {σ : Type}

/-! ## Skipping places -/

/-- Why a visitor is not called: it has stopped, or it skips what is below a place. -/
inductive Absence
  | none
  | brk
  | below (path : List Key)

/-- What remains of the absence in a call for the node at a path, or nothing if the visitor is
called.  It is not called below the place and when the place is left, and it is back then. -/
def Absence.at (absence : Absence) (isLeaving : Bool) (path : List Key) : Option Absence :=
  match absence with
  | .none => Option.none
  | .brk => some .brk
  | .below skipped =>
      if skipped = path then if isLeaving then some .none else Option.none
      else if skipped.isPrefixOf path then some (.below skipped) else Option.none

structure PlacedSeat (σ : Type) where
  absence : Absence
  state : σ

/-- The visitors one after the other, up to the first that edits. -/
def callPlaced (isLeaving : Bool) (args : VisitArgs) : List (Option (VisitMethod σ)) →
    List (PlacedSeat σ) → AstValue × List (PlacedSeat σ)
  | fn :: fns, seat :: seats =>
      let pass (seat : PlacedSeat σ) : AstValue × List (PlacedSeat σ) :=
        let (value, seats) := callPlaced isLeaving args fns seats
        (value, seat :: seats)
      match seat.absence.at isLeaving args.path with
      | some absence => pass ⟨absence, seat.state⟩
      | none =>
          match fn with
          | none => pass ⟨.none, seat.state⟩
          | some fn =>
              let (result, state) := fn args seat.state
              match result.answer with
              | .skip => pass ⟨if isLeaving then .none else .below args.path, state⟩
              | .brk => pass ⟨.brk, state⟩
              | .edit value => (value, ⟨.none, state⟩ :: seats)
              | .idle => pass ⟨.none, state⟩
  | _, seats => (.none, seats)

/-- The parallel visitor that remembers the places of skipped nodes. -/
def placedVisitor (visitors : List (Visitor σ)) : Visitor (List (PlacedSeat σ)) where
  getEnterLeaveForKind kind :=
    if hasVisitor visitors kind then
      { enter := some fun args seats =>
          callPlaced false args (visitors.map fun visitor => visitor.visitFn false kind) seats
        leave := some fun args seats =>
          callPlaced true args (visitors.map fun visitor => visitor.visitFn true kind) seats }
    else { enter := none, leave := none }

/-- Two runs with the same states of the visitors, and so with the same calls. -/
def SameCalls : Step (List (Seat σ)) → Step (List (PlacedSeat σ)) → Prop
  | .next loop, .next loop' =>
      loop.world.state.map (·.state) = loop'.world.state.map (·.state)
  | .stop result world, .stop result' world' =>
      result = result' ∧ world.state.map (·.state) = world'.state.map (·.state)
  | _, _ => False

/-- A call in this turn edits only while no visitor is skipping.  A node that was entered may
be given as its own replacement. -/
def Careful (visitors : List (Visitor σ)) (root : AstValue) (loop : Loop (List (Seat σ))) :
    Prop :=
  ∀ turn result world value, loop.arrive root = .ok (some turn) →
    callVisitor (parallelVisitor visitors) turn.isLeaving turn.args turn.loop.world =
      .ok (result, world) →
    result.answer = .edit value → ∀ seat ∈ world.state, ∀ node, seat.skipping = .node node →
      turn.isLeaving = false ∧ node = turn.node ∧ value = turn.node

/-! ## Calls -/

/-- The two seats of a visitor, where `isOpen` relates a skipped node and its place. -/
def Mates (isOpen : AstValue → List Key → Prop) (seat : Seat σ) (placed : PlacedSeat σ) : Prop :=
  seat.state = placed.state ∧
    match seat.skipping, placed.absence with
    | .none, .none => True
    | .brk, .brk => True
    | .node node, .below path => isOpen node path
    | _, _ => False

section Mates

variable {isOpen isOpen' : AstValue → List Key → Prop} {seats : List (Seat σ)}
variable {placed : List (PlacedSeat σ)}

theorem answer_eq_edit {result value : AstValue} (h : result.answer = .edit value) :
    result = value := by
  unfold AstValue.answer at h
  split at h <;> injection h

theorem mates_none {state : σ} : Mates isOpen ⟨.none, state⟩ ⟨.none, state⟩ := ⟨rfl, trivial⟩

theorem mates_brk {state : σ} : Mates isOpen ⟨.brk, state⟩ ⟨.brk, state⟩ := ⟨rfl, trivial⟩

theorem mates_node {state : σ} {node : AstValue} {path : List Key} (h : isOpen node path) :
    Mates isOpen ⟨.node node, state⟩ ⟨.below path, state⟩ := ⟨rfl, h⟩

theorem mates_states (h : List.Forall₂ (Mates isOpen) seats placed) :
    seats.map (·.state) = placed.map (·.state) := by
  induction h with
  | nil => rfl
  | cons hseat hseats ih => rw [List.map_cons, List.map_cons, hseat.1, ih]

theorem mates_mono (h : List.Forall₂ (Mates isOpen) seats placed)
    (hopen : ∀ seat ∈ seats, ∀ node path, seat.skipping = .node node → isOpen node path →
      isOpen' node path) : List.Forall₂ (Mates isOpen') seats placed := by
  induction h with
  | nil => exact .nil
  | @cons seat placed seats rest hseat hseats ih =>
      obtain ⟨hhead, htail⟩ := List.forall_mem_cons.mp hopen
      refine .cons ?_ (ih htail)
      obtain ⟨skipping, state⟩ := seat
      obtain ⟨absence, state'⟩ := placed
      obtain ⟨hstate, hmatch⟩ := hseat
      refine ⟨hstate, ?_⟩
      cases skipping <;> cases absence <;> simp only at hmatch ⊢
      exact hhead _ _ rfl hmatch

variable {args : VisitArgs} {visitors : List (Visitor σ)} {kind : String}

theorem enterAll_mates (hopen : ∀ node path, isOpen node path →
      path ≠ args.path ∧ path.isPrefixOf args.path) (fns : List (Option (VisitMethod σ)))
    (h : List.Forall₂ (Mates isOpen) seats placed) :
    (callPlaced false args fns placed).1 = (enterAll args fns seats).1 ∧
      List.Forall₂ (Mates fun node path => isOpen node path ∨ node = args.node ∧ path = args.path)
        (enterAll args fns seats).2 (callPlaced false args fns placed).2 := by
  have hmono : ∀ {seats : List (Seat σ)} {placed : List (PlacedSeat σ)},
      List.Forall₂ (Mates isOpen) seats placed → List.Forall₂ (Mates fun node path =>
        isOpen node path ∨ node = args.node ∧ path = args.path) seats placed :=
    fun h => mates_mono h fun _ _ _ _ _ h => Or.inl h
  induction h generalizing fns with
  | nil => cases fns <;> exact ⟨rfl, .nil⟩
  | @cons seat placed seats rest hseat hseats ih =>
      cases fns with
      | nil => exact ⟨rfl, hmono (.cons hseat hseats)⟩
      | cons fn fns =>
          obtain ⟨hvalue, hrest⟩ := ih fns
          obtain ⟨skipping, state⟩ := seat
          obtain ⟨absence, state'⟩ := placed
          obtain ⟨rfl, hmatch⟩ := hseat
          cases skipping with
          | none =>
              cases absence with
              | none =>
                  cases fn with
                  | none =>
                      simp only [callPlaced, enterAll, Absence.at]
                      exact ⟨hvalue, .cons mates_none hrest⟩
                  | some fn =>
                      cases hanswer : (fn args state).1.answer with
                      | skip =>
                          simp only [callPlaced, enterAll, Absence.at, hanswer]
                          exact ⟨hvalue, .cons (mates_node (Or.inr ⟨rfl, rfl⟩)) hrest⟩
                      | brk =>
                          simp only [callPlaced, enterAll, Absence.at, hanswer]
                          exact ⟨hvalue, .cons mates_brk hrest⟩
                      | edit value =>
                          simp only [callPlaced, enterAll, Absence.at, hanswer]
                          exact ⟨trivial, .cons mates_none (hmono hseats)⟩
                      | idle =>
                          simp only [callPlaced, enterAll, Absence.at, hanswer]
                          exact ⟨hvalue, .cons mates_none hrest⟩
              | _ => exact hmatch.elim
          | brk =>
              cases absence with
              | brk =>
                  simp only [callPlaced, enterAll, Absence.at]
                  exact ⟨hvalue, .cons mates_brk hrest⟩
              | _ => exact hmatch.elim
          | node node =>
              cases absence with
              | below path =>
                  obtain ⟨hne, hprefix⟩ := hopen node path hmatch
                  simp only [callPlaced, enterAll, Absence.at, hne, hprefix, if_true, if_false]
                  exact ⟨hvalue, .cons (mates_node (Or.inl hmatch)) hrest⟩
              | _ => exact hmatch.elim

/-- On leaving a node without an edit, the visitors that skipped it are back. -/
theorem leaveAll_mates (hopen : ∀ node path, isOpen node path →
      path ≠ args.path ∧ path.isPrefixOf args.path ∧ node ≠ args.node ∨
        path = args.path ∧ node = args.node) (fns : List (Option (VisitMethod σ)))
    (h : List.Forall₂ (Mates isOpen) seats placed) :
    (callPlaced true args fns placed).1 = (leaveAll args fns seats).1 ∧
      List.Forall₂ (Mates isOpen) (leaveAll args fns seats).2 (callPlaced true args fns placed).2 ∧
      (fns.length = seats.length → (leaveAll args fns seats).1 = .none →
        List.Forall₂ (Mates fun node path => isOpen node path ∧ path ≠ args.path)
          (leaveAll args fns seats).2 (callPlaced true args fns placed).2) := by
  induction h generalizing fns with
  | nil => cases fns <;> exact ⟨rfl, .nil, fun _ _ => .nil⟩
  | @cons seat placed seats rest hseat hseats ih =>
      cases fns with
      | nil => exact ⟨rfl, .cons hseat hseats, fun h => by cases h⟩
      | cons fn fns =>
          obtain ⟨hvalue, hrest, hback⟩ := ih fns
          have hlater : ∀ {seat seat' : Seat σ} {placed : PlacedSeat σ},
              Mates (fun node path => isOpen node path ∧ path ≠ args.path) seat placed →
              (fn :: fns).length = (seat' :: seats).length → (leaveAll args fns seats).1 = .none →
              List.Forall₂ (Mates fun node path => isOpen node path ∧ path ≠ args.path)
                (seat :: (leaveAll args fns seats).2)
                (placed :: (callPlaced true args fns rest).2) :=
            fun hseat hlen hnone => .cons hseat (hback (Nat.succ.inj hlen) hnone)
          obtain ⟨skipping, state⟩ := seat
          obtain ⟨absence, state'⟩ := placed
          obtain ⟨rfl, hmatch⟩ := hseat
          cases skipping with
          | none =>
              cases absence with
              | none =>
                  cases fn with
                  | none =>
                      simp only [callPlaced, leaveAll, Absence.at]
                      exact ⟨hvalue, .cons mates_none hrest, hlater mates_none⟩
                  | some fn =>
                      cases hanswer : (fn args state).1.answer with
                      | edit value =>
                          simp only [callPlaced, leaveAll, Absence.at, hanswer]
                          refine ⟨trivial, .cons mates_none hseats, fun _ hnone => ?_⟩
                          rw [← answer_eq_edit hanswer] at hnone
                          rw [hnone] at hanswer
                          cases hanswer
                      | brk =>
                          simp only [callPlaced, leaveAll, Absence.at, hanswer]
                          exact ⟨hvalue, .cons mates_brk hrest, hlater mates_brk⟩
                      | skip =>
                          simp only [callPlaced, leaveAll, Absence.at, hanswer, if_true]
                          exact ⟨hvalue, .cons mates_none hrest, hlater mates_none⟩
                      | idle =>
                          simp only [callPlaced, leaveAll, Absence.at, hanswer]
                          exact ⟨hvalue, .cons mates_none hrest, hlater mates_none⟩
              | _ => exact hmatch.elim
          | brk =>
              cases absence with
              | brk =>
                  simp only [callPlaced, leaveAll, Absence.at]
                  exact ⟨hvalue, .cons mates_brk hrest, hlater mates_brk⟩
              | _ => exact hmatch.elim
          | node node =>
              cases absence with
              | below path =>
                  rcases hopen node path hmatch with ⟨hne, hprefix, hnode⟩ | ⟨rfl, rfl⟩
                  · simp only [callPlaced, leaveAll, Absence.at, hne, hprefix, hnode, if_true,
                      if_false]
                    exact ⟨hvalue, .cons (mates_node hmatch) hrest,
                      hlater (mates_node ⟨hmatch, hne⟩)⟩
                  · simp only [callPlaced, leaveAll, Absence.at, if_true]
                    exact ⟨hvalue, .cons mates_none hrest, hlater mates_none⟩
              | _ => exact hmatch.elim

end Mates

/-! ## Two loops in step -/

section States

variable {τ : Type}

/-- The same world with another state. -/
def World.withState (world : World σ) (state : τ) : World τ := ⟨world.fresh, state⟩

/-- The same loop for another visitor. -/
def Loop.withState (loop : Loop σ) (state : τ) : Loop τ where
  stack := loop.stack
  inArray := loop.inArray
  keys := loop.keys
  idx := loop.idx
  edits := loop.edits
  parent := loop.parent
  path := loop.path
  ancestors := loop.ancestors
  world := loop.world.withState state

def Turn.withState (turn : Turn σ) (state : τ) : Turn τ where
  loop := turn.loop.withState state
  isLeaving := turn.isLeaving
  isEdited := turn.isEdited
  key := turn.key
  node := turn.node

def Step.world (step : Step σ) : World σ :=
  match step with
  | .next loop => loop.world
  | .stop _ world => world

def Step.withState (step : Step σ) (state : τ) : Step τ :=
  match step with
  | .next loop => .next (loop.withState state)
  | .stop result world => .stop result (world.withState state)

variable {visitorKeys : VisitorKeyMap} {root : AstValue} {state : τ}

theorem leaveFrame_withState (loop : Loop σ) : (loop.withState state).leaveFrame =
    loop.leaveFrame.map fun turn => turn.withState state := by
  obtain ⟨stack, inArray, keys, idx, edits, parent, path, ancestors, world⟩ := loop
  cases stack with
  | nil => rfl
  | cons frame stack =>
      cases edits with
      | nil => rfl
      | cons edit edits => cases parent <;> rfl

theorem enterChild_withState (loop : Loop σ) : (loop.withState state).enterChild root =
    (loop.enterChild root).map fun turn => turn.withState state := by
  have hparent : (loop.withState state).parent = loop.parent := rfl
  have hchild : (loop.withState state).child = loop.child := rfl
  rw [Loop.enterChild, Loop.enterChild, hparent, hchild]
  by_cases htruthy : loop.parent.truthy
  · rw [if_pos htruthy, if_pos htruthy]
    cases loop.child with
    | none => rfl
    | some part =>
        obtain ⟨key, node⟩ := part
        cases node <;> rfl
  · rw [if_neg htruthy, if_neg htruthy]
    rfl

/-- The loop finds its way without the state of the visitor. -/
theorem arrive_withState (loop : Loop σ) : (loop.withState state).arrive root =
    (loop.arrive root).map (Option.map fun turn => turn.withState state) := by
  have hidx : (loop.withState state).idx = loop.idx := rfl
  have hkeys : (loop.withState state).keys = loop.keys := rfl
  rw [Loop.arrive, Loop.arrive, hidx, hkeys]
  by_cases hlen : loop.idx = loop.keys.length
  · rw [if_pos hlen, if_pos hlen, leaveFrame_withState]
    cases loop.leaveFrame <;> rfl
  · rw [if_neg hlen, if_neg hlen, enterChild_withState]
    rfl

variable (visitorKeys) in
theorem proceed_withState (turn : Turn σ) : (turn.withState state).proceed visitorKeys root =
    (turn.proceed visitorKeys root).withState state := by
  obtain ⟨loop, isLeaving, isEdited, key, node⟩ := turn
  cases isLeaving with
  | false => rfl
  | true =>
      obtain ⟨stack, inArray, keys, idx, edits, parent, path, ancestors, world⟩ := loop
      cases stack <;> rfl

theorem passOver_withState (turn : Turn σ) :
    (turn.withState state).passOver = turn.passOver.withState state := by
  obtain ⟨⟨stack, inArray, keys, idx, edits, parent, path, ancestors, world⟩, isLeaving, isEdited,
    key, node⟩ := turn
  cases path <;> rfl

theorem react_withState (turn : Turn σ) (result : AstValue) :
    (turn.withState state).react visitorKeys root result =
      (turn.react visitorKeys root result).withState state := by
  obtain ⟨loop, isLeaving, isEdited, key, node⟩ := turn
  rw [Turn.react, Turn.react]
  cases result.answer with
  | brk => rfl
  | skip =>
      cases isLeaving with
      | false => exact passOver_withState ⟨loop, false, isEdited, key, node⟩
      | true => exact proceed_withState visitorKeys ⟨loop, true, isEdited, key, node⟩
  | edit value =>
      cases isLeaving with
      | true =>
          exact proceed_withState visitorKeys
            (Turn.record ⟨loop, true, isEdited, key, node⟩ value)
      | false =>
          change (if value.isNode then _ else _) =
            Step.withState (if value.isNode then _ else _) state
          by_cases hvalue : value.isNode
          · rw [if_pos hvalue, if_pos hvalue]
            exact proceed_withState visitorKeys
              { Turn.record ⟨loop, false, isEdited, key, node⟩ value with node := value }
          · rw [if_neg hvalue, if_neg hvalue]
            exact passOver_withState (Turn.record ⟨loop, false, isEdited, key, node⟩ value)
  | idle =>
      cases isEdited with
      | true =>
          exact proceed_withState visitorKeys
            (Turn.record ⟨loop, isLeaving, true, key, node⟩ node)
      | false => exact proceed_withState visitorKeys ⟨loop, isLeaving, false, key, node⟩

end States

/-! ## Open places -/

/-- The node was skipped at the path, it is still open, and nothing below it was edited: every
open node below it is a part of it. -/
inductive Skipped (node : AstValue) (path : List Key) :
    AstValue → List AstValue → List Edit → List Stack → List Key → Prop
  | here {ancestors stack} : Skipped node path node ancestors [] stack path
  | inside {parent child ancestors frame stack path' key}
      (above : Skipped node path parent ancestors [] stack path') (truthy : parent.truthy)
      (edits : frame.edits = []) (size : sizeOf child < sizeOf parent) :
      Skipped node path child (ancestors ++ [parent]) [] (frame :: stack) (path' ++ [key])

/-- Some visitor has a method for the node. -/
def Called (visitors : List (Visitor σ)) (node : AstValue) : Prop :=
  ∃ ref kind attributes, node = .node ref kind attributes ∧ hasVisitor visitors kind

/-- The node was skipped at the path and is still open. -/
structure IsOpen {τ : Type} (visitors : List (Visitor σ)) (loop : Loop τ) (node : AstValue)
    (path : List Key) : Prop where
  called : Called visitors node
  skipped : Skipped node path loop.parent loop.ancestors loop.edits loop.stack loop.path
  truthy : loop.parent.truthy ∨ loop.idx = loop.keys.length

section Skipped

variable {node parent : AstValue} {path path' : List Key} {ancestors : List AstValue}
variable {edits : List Edit} {stack : List Stack}

theorem Skipped.edits_eq (h : Skipped node path parent ancestors edits stack path') :
    edits = [] := by
  cases h <;> rfl

theorem Skipped.sizeOf_le (h : Skipped node path parent ancestors edits stack path') :
    sizeOf parent ≤ sizeOf node := by
  induction h with
  | here => exact Nat.le_refl _
  | inside above truthy edits size ih => exact Nat.le_of_lt (Nat.lt_of_lt_of_le size ih)

theorem Skipped.isPrefix (h : Skipped node path parent ancestors edits stack path') :
    path <+: path' := by
  induction h with
  | here => exact List.prefix_rfl
  | inside above truthy edits size ih => exact ih.trans (List.prefix_append _ _)

theorem ne_concat_of_isPrefix {key : Key} (h : path <+: path') : path ≠ path' ++ [key] := by
  rintro rfl
  have hlen := h.length_le
  rw [List.length_append, List.length_singleton] at hlen
  omega

/-- A node that is left is the skipped one, or a part of it below the place. -/
theorem Skipped.cases_leave (h : Skipped node path parent ancestors edits stack path') :
    (path = path' ∧ node = parent) ∨
      path ≠ path' ∧ path.isPrefixOf path' ∧ node ≠ parent := by
  cases h with
  | here => exact Or.inl ⟨rfl, rfl⟩
  | inside above truthy edits size =>
      refine Or.inr ⟨ne_concat_of_isPrefix above.isPrefix, ?_, ?_⟩
      · rw [List.isPrefixOf_iff_prefix]
        exact above.isPrefix.trans (List.prefix_append _ _)
      · rintro rfl
        exact Nat.lt_irrefl _ (Nat.lt_of_lt_of_le size above.sizeOf_le)

end Skipped

theorem sizeOf_item_lt {value : AstValue} {idx : ℕ} (h : value.item idx ≠ .none) :
    sizeOf (value.item idx) < sizeOf value := by
  cases value with
  | tuple items =>
      rw [AstValue.item] at h ⊢
      by_cases hidx : idx < items.length
      · have hmem : items.getD idx .none ∈ items := by
          simp [List.getD, List.getElem?_eq_getElem hidx]
        have hlt := List.sizeOf_lt_of_mem hmem
        simp only [AstValue.tuple.sizeOf_spec]
        omega
      · simp [List.getD, List.getElem?_eq_none (Nat.le_of_not_lt hidx)] at h
  | _ => simp [AstValue.item] at h

theorem sizeOf_loopChild_lt {loop : Loop σ} {key : Key} {node : AstValue}
    (h : loop.child = some (key, node)) (hnone : node ≠ .none) :
    sizeOf node < sizeOf loop.parent := by
  rw [Loop.child] at h
  split at h
  · cases h
    exact sizeOf_item_lt hnone
  · obtain ⟨name, -, hpart⟩ := Option.map_eq_some_iff.mp h
    cases hpart
    exact sizeOf_getAttr_lt hnone

/-- What a turn of the loop comes to. -/
theorem arrive_eq_some {root : AstValue} {loop : Loop σ} {turn : Turn σ}
    (h : loop.arrive root = .ok (some turn)) :
    (∃ frame stack, loop.stack = frame :: stack ∧ turn = {
        loop := {
          stack := stack
          inArray := frame.inArray
          keys := frame.keys
          idx := frame.idx
          edits := frame.edits
          parent := loop.ancestors.getLast?.getD .none
          path := loop.path
          ancestors := loop.ancestors.dropLast
          world := (withEdits loop.parent loop.edits loop.world).2 }
        isLeaving := true
        isEdited := !loop.edits.isEmpty
        key := if loop.ancestors.isEmpty then none else loop.path.getLast?
        node := (withEdits loop.parent loop.edits loop.world).1 }) ∨
      (loop.idx ≠ loop.keys.length ∧ ¬loop.parent.truthy ∧
        turn = ⟨{ loop with idx := loop.idx + 1 }, false, false, none, root⟩) ∨
      (loop.parent.truthy ∧ ∃ key node, sizeOf node < sizeOf loop.parent ∧
        turn = ⟨{ loop with idx := loop.idx + 1, path := loop.path ++ [key] }, false, false,
          some key, node⟩) := by
  rw [Loop.arrive] at h
  split at h
  · left
    cases hstack : loop.stack with
    | nil =>
        rw [Loop.leaveFrame, hstack] at h
        cases h
    | cons frame stack =>
        refine ⟨frame, stack, rfl, ?_⟩
        rw [Loop.leaveFrame, hstack] at h
        cases hempty : loop.edits.isEmpty with
        | true =>
            simp only [hempty, Except.map, Except.ok.injEq, Option.some.injEq] at h
            simp [← h, withEdits, hempty]
        | false =>
            simp only [hempty, Except.map, Except.ok.injEq, Option.some.injEq] at h
            simp [← h, withEdits, hempty]
  · rename_i hidx
    right
    rw [Loop.enterChild, Except.ok.injEq] at h
    split at h
    · rename_i htruthy
      right
      refine ⟨htruthy, ?_⟩
      split at h
      · cases h
      · cases h
      · rename_i key node hnone hchild
        refine ⟨key, node, sizeOf_loopChild_lt hchild ?_, (Option.some.inj h).symm⟩
        rintro rfl
        exact hnone rfl
    · rename_i htruthy
      exact Or.inl ⟨hidx, htruthy, (Option.some.inj h).symm⟩

/-! ## One turn -/

section Turn

variable {visitorKeys : VisitorKeyMap} {visitors : List (Visitor σ)} {root : AstValue}
variable {args : VisitArgs} {placed : List (PlacedSeat σ)} {world world' : World (List (Seat σ))}
variable {isOpen : AstValue → List Key → Prop} {result : AstValue}

theorem answer_of_edit {result value : AstValue} (h : result.answer = .edit value) :
    value.answer = .edit value := by
  have hvalue := answer_eq_edit h
  subst hvalue
  exact h

theorem enterAll_result (fns : List (Option (VisitMethod σ))) (seats : List (Seat σ)) :
    (enterAll args fns seats).1 = .none ∨
      (enterAll args fns seats).1.answer = .edit (enterAll args fns seats).1 ∧
        ∃ method state, some method ∈ fns ∧
          (method args state).1 = (enterAll args fns seats).1 := by
  induction fns generalizing seats with
  | nil => exact Or.inl rfl
  | cons fn fns ih =>
      cases seats with
      | nil => exact Or.inl rfl
      | cons seat seats =>
          obtain ⟨skipping, state⟩ := seat
          have later : ∀ {value : AstValue},
              (value = .none ∨ value.answer = .edit value ∧
                ∃ method state, some method ∈ fns ∧ (method args state).1 = value) →
              value = .none ∨ value.answer = .edit value ∧
                ∃ method state, some method ∈ fn :: fns ∧ (method args state).1 = value := by
            intro value h
            refine h.imp_right (And.imp_right ?_)
            rintro ⟨method, state, hmem, hvalue⟩
            exact ⟨method, state, List.mem_cons_of_mem fn hmem, hvalue⟩
          cases skipping with
          | none =>
              cases fn with
              | none => exact later (ih seats)
              | some fn =>
                  cases hanswer : (fn args state).1.answer with
                  | edit value =>
                      simp only [enterAll, hanswer]
                      exact Or.inr ⟨answer_of_edit hanswer, fn, state, List.mem_cons_self,
                        answer_eq_edit hanswer⟩
                  | _ =>
                      simp only [enterAll, hanswer]
                      exact later (ih seats)
          | _ => cases fn <;> exact later (ih seats)

theorem leaveAll_result (fns : List (Option (VisitMethod σ))) (seats : List (Seat σ)) :
    (leaveAll args fns seats).1 = .none ∨
      (leaveAll args fns seats).1.answer = .edit (leaveAll args fns seats).1 ∧
        ∃ method state, some method ∈ fns ∧
          (method args state).1 = (leaveAll args fns seats).1 := by
  induction fns generalizing seats with
  | nil => exact Or.inl rfl
  | cons fn fns ih =>
      cases seats with
      | nil => exact Or.inl rfl
      | cons seat seats =>
          obtain ⟨skipping, state⟩ := seat
          have later : ∀ {value : AstValue},
              (value = .none ∨ value.answer = .edit value ∧
                ∃ method state, some method ∈ fns ∧ (method args state).1 = value) →
              value = .none ∨ value.answer = .edit value ∧
                ∃ method state, some method ∈ fn :: fns ∧ (method args state).1 = value := by
            intro value h
            refine h.imp_right (And.imp_right ?_)
            rintro ⟨method, state, hmem, hvalue⟩
            exact ⟨method, state, List.mem_cons_of_mem fn hmem, hvalue⟩
          cases skipping with
          | none =>
              cases fn with
              | none => exact later (ih seats)
              | some fn =>
                  cases hanswer : (fn args state).1.answer with
                  | edit value =>
                      simp only [leaveAll, hanswer]
                      exact Or.inr ⟨answer_of_edit hanswer, fn, state, List.mem_cons_self,
                        answer_eq_edit hanswer⟩
                  | _ =>
                      simp only [leaveAll, hanswer]
                      exact later (ih seats)
          | brk => cases fn <;> exact later (ih seats)
          | node node =>
              by_cases hnode : node = args.node <;>
                simp only [leaveAll, hnode, if_true, if_false] <;> exact later (ih seats)

theorem visitFn_parallel_enter {kind : String} : (parallelVisitor visitors).visitFn false kind =
    if hasVisitor visitors kind then some fun args seats =>
      enterAll args (visitors.map fun visitor => visitor.visitFn false kind) seats
    else none := by
  rw [Visitor.visitFn, getEnterLeave_parallel]
  cases hasVisitor visitors kind <;> rfl

theorem visitFn_parallel_leave {kind : String} : (parallelVisitor visitors).visitFn true kind =
    if hasVisitor visitors kind then some fun args seats =>
      leaveAll args (visitors.map fun visitor => visitor.visitFn true kind) seats
    else none := by
  rw [Visitor.visitFn, getEnterLeave_parallel]
  cases hasVisitor visitors kind <;> rfl

theorem visitFn_placed {isLeaving : Bool} {kind : String} :
    (placedVisitor visitors).visitFn isLeaving kind =
      if hasVisitor visitors kind then some fun args seats =>
        callPlaced isLeaving args (visitors.map fun visitor => visitor.visitFn isLeaving kind) seats
      else none := by
  by_cases hhas : hasVisitor visitors kind
  · cases isLeaving <;> simp [Visitor.visitFn, placedVisitor, hhas]
  · cases isLeaving <;> simp [Visitor.visitFn, placedVisitor, hhas]

/-- A call of either visitor for a node that no method is there for. -/
theorem callVisitor_uncalled {τ : Type} {visitor : Visitor τ} {isLeaving : Bool} {world : World τ}
    (h : args.node.isTuple ∨ ∃ ref kind attributes, args.node = .node ref kind attributes ∧
      visitor.visitFn isLeaving kind = none) :
    callVisitor visitor isLeaving args world = .ok (.none, world) := by
  rcases h with htuple | ⟨ref, kind, attributes, hnode, hfn⟩
  · cases hargs : args.node <;> simp [hargs, AstValue.isTuple] at htuple
    simp only [callVisitor, hargs]
  · simp only [callVisitor, hnode, hfn]

/-- A call of the parallel visitor reaches no method, or that for the kind of the node. -/
theorem callVisitor_cases {isLeaving : Bool}
    (hcall : callVisitor (parallelVisitor visitors) isLeaving args world = .ok (result, world')) :
    (¬Called visitors args.node ∧ result = .none ∧ world' = world ∧
      ∀ placed, callVisitor (placedVisitor visitors) isLeaving args (world.withState placed) =
        .ok (.none, world.withState placed)) ∨
    ∃ ref kind attributes, args.node = .node ref kind attributes ∧ hasVisitor visitors kind := by
  rcases callVisitor_eq_ok hcall with ⟨htuple, rfl, rfl⟩ | ⟨ref, kind, attributes, hnode, hfn⟩
  · refine Or.inl ⟨?_, rfl, rfl, fun placed => callVisitor_uncalled (Or.inl htuple)⟩
    rintro ⟨ref, kind, attributes, hnode, -⟩
    rw [hnode] at htuple
    nomatch htuple
  · by_cases hhas : hasVisitor visitors kind
    · exact Or.inr ⟨ref, kind, attributes, hnode, hhas⟩
    · have hnone : (parallelVisitor visitors).visitFn isLeaving kind = none := by
        cases isLeaving
        · rw [visitFn_parallel_enter, if_neg hhas]
        · rw [visitFn_parallel_leave, if_neg hhas]
      rw [hnone] at hfn
      obtain ⟨rfl, rfl⟩ := hfn
      refine Or.inl ⟨?_, rfl, rfl, fun placed => callVisitor_uncalled
        (Or.inr ⟨ref, kind, attributes, hnode, by rw [visitFn_placed, if_neg hhas]⟩)⟩
      rintro ⟨ref', kind', attributes', hnode', hhas'⟩
      cases hnode.symm.trans hnode'
      exact hhas hhas'

theorem callVisitor_enter_mates
    (hopen : ∀ node path, isOpen node path → path ≠ args.path ∧ path.isPrefixOf args.path)
    (h : List.Forall₂ (Mates isOpen) world.state placed)
    (hcall : callVisitor (parallelVisitor visitors) false args world = .ok (result, world')) :
    (result = .none ∨ result.answer = .edit result) ∧ ∃ placed',
      callVisitor (placedVisitor visitors) false args (world.withState placed) =
          .ok (result, world'.withState placed') ∧
        List.Forall₂ (Mates fun node path =>
          isOpen node path ∨ node = args.node ∧ path = args.path ∧ Called visitors node)
          world'.state placed' := by
  rcases callVisitor_cases hcall with
    ⟨-, rfl, rfl, hplaced⟩ | ⟨ref, kind, attributes, hnode, hhas⟩
  · exact ⟨Or.inl rfl, placed, hplaced placed, mates_mono h fun _ _ _ _ _ h => Or.inl h⟩
  · simp only [callVisitor, hnode, visitFn_parallel_enter, if_pos hhas, Except.ok.injEq,
      Prod.mk.injEq] at hcall
    obtain ⟨rfl, rfl⟩ := hcall
    obtain ⟨hvalue, hmates⟩ := enterAll_mates hopen
      (visitors.map fun visitor => visitor.visitFn false kind) h
    refine ⟨(enterAll_result _ _).imp_right And.left, _, ?_,
      mates_mono hmates fun seat _ node path _ hor => ?_⟩
    · simp only [callVisitor, hnode, visitFn_placed, if_pos hhas]
      rw [← hvalue]
      rfl
    · refine hor.imp_right ?_
      rintro ⟨rfl, rfl⟩
      exact ⟨rfl, rfl, ref, kind, attributes, hnode, hhas⟩

theorem callVisitor_leave_mates (hlen : visitors.length = world.state.length)
    (hopen : ∀ node path, isOpen node path → Called visitors node ∧
      (path = args.path ∧ node = args.node ∨
        path ≠ args.path ∧ path.isPrefixOf args.path ∧ node ≠ args.node))
    (h : List.Forall₂ (Mates isOpen) world.state placed)
    (hcall : callVisitor (parallelVisitor visitors) true args world = .ok (result, world')) :
    (result = .none ∨ result.answer = .edit result) ∧ ∃ placed',
      callVisitor (placedVisitor visitors) true args (world.withState placed) =
          .ok (result, world'.withState placed') ∧
        List.Forall₂ (Mates isOpen) world'.state placed' ∧
        (result = .none → List.Forall₂ (Mates fun node path =>
          isOpen node path ∧ path ≠ args.path) world'.state placed') := by
  rcases callVisitor_cases hcall with
    ⟨hnot, rfl, rfl, hplaced⟩ | ⟨ref, kind, attributes, hnode, hhas⟩
  · refine ⟨Or.inl rfl, placed, hplaced placed, h, fun _ => ?_⟩
    refine mates_mono h fun seat _ node path _ hpath => ⟨hpath, ?_⟩
    obtain ⟨hcalled, ⟨-, rfl⟩ | ⟨hne, -⟩⟩ := hopen node path hpath
    · exact absurd hcalled hnot
    · exact hne
  · simp only [callVisitor, hnode, visitFn_parallel_leave, if_pos hhas, Except.ok.injEq,
      Prod.mk.injEq] at hcall
    obtain ⟨rfl, rfl⟩ := hcall
    obtain ⟨hvalue, hmates, hback⟩ := leaveAll_mates (fun node path hpath =>
        (hopen node path hpath).2.symm) (visitors.map fun visitor => visitor.visitFn true kind) h
    refine ⟨(leaveAll_result _ _).imp_right And.left, _, ?_, hmates,
      fun hnone => hback (by simpa using hlen) hnone⟩
    simp only [callVisitor, hnode, visitFn_placed, if_pos hhas]
    rw [← hvalue]
    rfl

theorem callVisitor_error {isLeaving : Bool} {error : VisitError}
    (hcall : callVisitor (parallelVisitor visitors) isLeaving args world = .error error) :
    callVisitor (placedVisitor visitors) isLeaving args (world.withState placed) =
      .error error := by
  unfold callVisitor at hcall ⊢
  cases hnode : args.node with
  | tuple items => simp [hnode] at hcall
  | node ref kind attributes =>
      simp only [hnode] at hcall
      split at hcall <;> nomatch hcall
  | _ => simpa [hnode] using hcall

theorem length_enterAll (fns : List (Option (VisitMethod σ))) (seats : List (Seat σ)) :
    (enterAll args fns seats).2.length = seats.length := by
  induction fns generalizing seats with
  | nil => rfl
  | cons fn fns ih =>
      cases seats with
      | nil => rfl
      | cons seat seats =>
          obtain ⟨skipping, state⟩ := seat
          cases skipping with
          | none =>
              cases fn with
              | none => simp only [enterAll, List.length_cons, ih]
              | some fn =>
                  cases hanswer : (fn args state).1.answer <;>
                    simp only [enterAll, hanswer, List.length_cons, ih]
          | _ => cases fn <;> simp only [enterAll, List.length_cons, ih]

theorem length_leaveAll (fns : List (Option (VisitMethod σ))) (seats : List (Seat σ)) :
    (leaveAll args fns seats).2.length = seats.length := by
  induction fns generalizing seats with
  | nil => rfl
  | cons fn fns ih =>
      cases seats with
      | nil => rfl
      | cons seat seats =>
          obtain ⟨skipping, state⟩ := seat
          cases skipping with
          | none =>
              cases fn with
              | none => simp only [leaveAll, List.length_cons, ih]
              | some fn =>
                  cases hanswer : (fn args state).1.answer <;>
                    simp only [leaveAll, hanswer, List.length_cons, ih]
          | brk => cases fn <;> simp only [leaveAll, List.length_cons, ih]
          | node node =>
              by_cases hnode : node = args.node <;>
                simp only [leaveAll, hnode, if_true, if_false, List.length_cons, ih]

theorem length_callVisitor {isLeaving : Bool}
    (hcall : callVisitor (parallelVisitor visitors) isLeaving args world = .ok (result, world')) :
    world'.state.length = world.state.length := by
  rcases callVisitor_cases hcall with ⟨-, -, rfl, -⟩ | ⟨ref, kind, attributes, hnode, hhas⟩
  · rfl
  · cases isLeaving
    · simp only [callVisitor, hnode, visitFn_parallel_enter, if_pos hhas, Except.ok.injEq,
        Prod.mk.injEq] at hcall
      obtain ⟨-, rfl⟩ := hcall
      exact length_enterAll _ _
    · simp only [callVisitor, hnode, visitFn_parallel_leave, if_pos hhas, Except.ok.injEq,
        Prod.mk.injEq] at hcall
      obtain ⟨-, rfl⟩ := hcall
      exact length_leaveAll _ _

/-- Two steps with the same calls, after which the two visitors skip the same places. -/
def StepMates (visitors : List (Visitor σ)) (step : Step (List (Seat σ)))
    (step' : Step (List (PlacedSeat σ))) : Prop :=
  match step with
  | .next loop => ∃ placed, step' = .next (loop.withState placed) ∧
      visitors.length = loop.world.state.length ∧
      List.Forall₂ (Mates (IsOpen visitors loop)) loop.world.state placed
  | .stop result world => ∃ placed, step' = .stop result (world.withState placed) ∧
      world.state.map (·.state) = placed.map (·.state)

/-- Nothing but the visitor changes its state. -/
theorem react_state {turn : Turn σ} :
    (turn.react visitorKeys root result).world.state = turn.loop.world.state := by
  have hreact : turn.react visitorKeys root result =
      (turn.react visitorKeys root result).withState turn.loop.world.state :=
    react_withState turn result
  rw [hreact]
  cases turn.react visitorKeys root result <;> rfl

theorem react_mates (turn : Turn (List (Seat σ)))
    (hlen : visitors.length = turn.loop.world.state.length)
    (h : List.Forall₂ (Mates isOpen) turn.loop.world.state placed)
    (hnext : ∀ loop, turn.react visitorKeys root result = .next loop →
      ∀ node path, isOpen node path → IsOpen visitors loop node path) :
    StepMates visitors (turn.react visitorKeys root result)
      ((turn.withState placed).react visitorKeys root result) := by
  have hstate : (turn.react visitorKeys root result).world.state = turn.loop.world.state :=
    react_state
  rw [react_withState]
  cases hreact : turn.react visitorKeys root result with
  | next loop =>
      rw [hreact] at hstate
      refine ⟨placed, rfl, ?_, ?_⟩
      · rw [show loop.world.state = turn.loop.world.state from hstate]
        exact hlen
      · rw [show loop.world.state = turn.loop.world.state from hstate]
        exact mates_mono h fun _ _ node path _ hopen => hnext loop hreact node path hopen
  | stop result world =>
      rw [hreact] at hstate
      refine ⟨placed, rfl, ?_⟩
      rw [show world.state = turn.loop.world.state from hstate]
      exact mates_states h

/-- Leaving a node without an edit: the places that were skipped above it are still open. -/
theorem isOpen_leave {loop loop' : Loop (List (Seat σ))} {turn : Turn (List (Seat σ))}
    {frame : Stack} {stack : List Stack} {node : AstValue} {path : List Key}
    (hstack : loop.stack = frame :: stack)
    (hturn : turn.loop = {
      stack := stack
      inArray := frame.inArray
      keys := frame.keys
      idx := frame.idx
      edits := frame.edits
      parent := loop.ancestors.getLast?.getD .none
      path := loop.path
      ancestors := loop.ancestors.dropLast
      world := turn.loop.world }) (hleaving : turn.isLeaving = true)
    (hedited : turn.isEdited = !loop.edits.isEmpty)
    (hreact : turn.react visitorKeys root .none = .next loop')
    (hopen : IsOpen visitors loop node path) (hne : path ≠ loop.path) :
    IsOpen visitors loop' node path := by
  obtain ⟨stack', inArray, keys, idx, edits, parent, path', ancestors, world⟩ := loop
  obtain ⟨hcalled, hskipped, -⟩ := hopen
  simp only at hstack hturn hedited hskipped hne
  subst hstack
  cases hskipped with
  | here => exact absurd rfl hne
  | @inside parent child ancestors frame stack path' key above truthy hframe size =>
      obtain ⟨turnLoop, isLeaving, isEdited, turnKey, turnNode⟩ := turn
      simp only at hturn hleaving hedited
      subst hleaving hedited
      simp only [Turn.react, AstValue.answer, List.isEmpty_nil, Bool.not_true,
        Bool.false_eq_true, if_false, Turn.proceed, if_true] at hreact
      rw [hturn] at hreact
      split at hreact
      · cases hreact
      · cases hreact
        refine ⟨hcalled, ?_, Or.inl ?_⟩
        · simpa [hframe] using above
        · simpa using truthy

/-- Where a turn that enters a node is: at the root while nothing is skipped, or below the
parent. -/
def EntersBelow (visitors : List (Visitor σ)) (loop : Loop (List (Seat σ))) (path : List Key)
    (node : AstValue) : Prop :=
  (∀ node path, ¬IsOpen visitors loop node path) ∨
    (loop.parent.truthy ∧ sizeOf node < sizeOf loop.parent ∧ ∃ key, path = loop.path ++ [key])

theorem truthy_or_empty {loop : Loop σ} {node : AstValue} (hnode : node.isNode ∨ node.isTuple)
    (hparent : loop.parent = node) (hidx : loop.idx = 0)
    (hkeys : ∀ items, node = .tuple items → loop.keys = .nodes items) :
    loop.parent.truthy ∨ loop.idx = loop.keys.length := by
  rw [hparent, hidx]
  cases node with
  | node ref kind attributes => exact Or.inl rfl
  | tuple items =>
      rw [hkeys items rfl]
      cases items with
      | nil => exact Or.inr rfl
      | cons item items => exact Or.inl rfl
  | _ => simp [AstValue.isNode, AstValue.isTuple] at hnode

/-- Entering a node without an edit: it is open from now on. -/
theorem isOpen_enter {loop loop' : Loop (List (Seat σ))} {turn : Turn (List (Seat σ))}
    {key : Option Key} {entered node : AstValue} {path path' : List Key}
    (hturn : turn = ⟨{ loop with idx := loop.idx + 1, path := path', world := world }, false,
      false, key, entered⟩)
    (hentered : entered.isNode ∨ entered.isTuple) (hbelow : EntersBelow visitors loop path' entered)
    (hreact : turn.react visitorKeys root .none = .next loop')
    (hopen : IsOpen visitors loop node path ∨
      node = entered ∧ path = path' ∧ Called visitors node) :
    IsOpen visitors loop' node path := by
  subst hturn
  simp only [Turn.react, AstValue.answer, Bool.false_eq_true, if_false, Turn.proceed] at hreact
  cases hreact
  rcases hopen with hopen | ⟨rfl, rfl, hcalled⟩
  · rcases hbelow with hnone | ⟨htruthy, hsize, key, rfl⟩
    · exact absurd hopen (hnone node path)
    · have hskipped := hopen.skipped
      rw [hskipped.edits_eq] at hskipped
      refine ⟨hopen.called, ?_, truthy_or_empty hentered rfl rfl ?_⟩
      · simp only [if_pos htruthy]
        exact .inside hskipped htruthy hopen.skipped.edits_eq hsize
      · rintro items rfl
        rfl
  · obtain ⟨ref, kind, attributes, rfl, hhas⟩ := hcalled
    exact ⟨⟨ref, kind, attributes, rfl, hhas⟩, .here, Or.inl rfl⟩

/-- A node that is entered and given back as its own replacement is open from now on. -/
theorem isOpen_enter_edit (loop : Loop (List (Seat σ))) {loop' : Loop (List (Seat σ))}
    {turn : Turn (List (Seat σ))}
    {key : Option Key} {entered : AstValue} {path' : List Key}
    (hturn : turn = ⟨{ loop with idx := loop.idx + 1, path := path', world := world }, false,
      false, key, entered⟩) (hanswer : entered.answer = .edit entered)
    (hcalled : Called visitors entered)
    (hreact : turn.react visitorKeys root entered = .next loop') :
    IsOpen visitors loop' entered path' := by
  subst hturn
  obtain ⟨ref, kind, attributes, rfl, hhas⟩ := hcalled
  simp only [Turn.react, hanswer, AstValue.isNode, Bool.false_eq_true, if_false, if_true,
    Turn.proceed, Turn.record] at hreact
  cases hreact
  exact ⟨⟨ref, kind, attributes, rfl, hhas⟩, .here, Or.inl rfl⟩

theorem act_ok {τ : Type} {visitor : Visitor τ} (turn : Turn τ) {world : World τ}
    (h : callVisitor visitor turn.isLeaving turn.args turn.loop.world = .ok (result, world)) :
    turn.act visitorKeys visitor root =
      { turn with loop := { turn.loop with world := world } }.react visitorKeys root result := by
  rw [Turn.act, h]

theorem act_error {τ : Type} {visitor : Visitor τ} (turn : Turn τ) {error : VisitError}
    (h : callVisitor visitor turn.isLeaving turn.args turn.loop.world = .error error) :
    turn.act visitorKeys visitor root = .stop (.error error) turn.loop.world := by
  rw [Turn.act, h]

theorem act_error_mates {turn : Turn (List (Seat σ))} {error : VisitError}
    (hcall : callVisitor (parallelVisitor visitors) turn.isLeaving turn.args turn.loop.world =
      .error error)
    (h : List.Forall₂ (Mates isOpen) turn.loop.world.state placed) :
    StepMates visitors (turn.act visitorKeys (parallelVisitor visitors) root)
      ((turn.withState placed).act visitorKeys (placedVisitor visitors) root) := by
  have hplaced : callVisitor (placedVisitor visitors) turn.isLeaving turn.args
      (turn.loop.world.withState placed) = .error error := callVisitor_error hcall
  rw [act_error turn hcall, act_error (turn.withState placed) hplaced]
  exact ⟨placed, rfl, mates_states h⟩

theorem act_enter_mates {loop : Loop (List (Seat σ))} {turn : Turn (List (Seat σ))}
    {key : Option Key} {entered : AstValue} {path' : List Key}
    (harrive : loop.arrive root = .ok (some turn))
    (hturn : turn = ⟨{ loop with idx := loop.idx + 1, path := path' }, false, false, key, entered⟩)
    (hbelow : EntersBelow visitors loop path' entered)
    (hlen : visitors.length = loop.world.state.length)
    (hcareful : Careful visitors root loop)
    (h : List.Forall₂ (Mates (IsOpen visitors loop)) loop.world.state placed) :
    StepMates visitors (turn.act visitorKeys (parallelVisitor visitors) root)
      ((turn.withState placed).act visitorKeys (placedVisitor visitors) root) := by
  have hopen : ∀ node path, IsOpen visitors loop node path →
      path ≠ path' ∧ path.isPrefixOf path' := by
    intro node path hopen
    rcases hbelow with hnone | ⟨-, -, key, rfl⟩
    · exact absurd hopen (hnone node path)
    · have hprefix := hopen.skipped.isPrefix
      rw [List.isPrefixOf_iff_prefix]
      exact ⟨ne_concat_of_isPrefix hprefix, hprefix.trans (List.prefix_append _ _)⟩
  cases hcall : callVisitor (parallelVisitor visitors) turn.isLeaving turn.args turn.loop.world with
  | error error =>
      have hworld : turn.loop.world = loop.world := by rw [hturn]
      rw [← hworld] at h
      exact act_error_mates hcall h
  | ok part =>
      obtain ⟨result, world⟩ := part
      have hedit : result.answer = .edit result → ∀ seat ∈ world.state, ∀ node,
          seat.skipping = .node node → turn.isLeaving = false ∧ node = turn.node ∧
            result = turn.node := hcareful turn result world result harrive hcall
      subst hturn
      obtain ⟨hresult, placed', hplaced, hmates⟩ := callVisitor_enter_mates hopen h hcall
      rw [act_ok _ hcall, act_ok (Turn.withState _ placed) hplaced]
      have hentered : entered.isNode ∨ entered.isTuple := by
        rcases callVisitor_eq_ok hcall with ⟨htuple, -, -⟩ | ⟨ref, kind, attributes, hnode, -⟩
        · exact Or.inr htuple
        · exact Or.inl (congrArg AstValue.isNode hnode)
      have hlength : visitors.length = world.state.length :=
        hlen.trans (length_callVisitor hcall).symm
      rcases hresult with rfl | hanswer
      · exact react_mates ⟨_, _, _, _, _⟩ hlength hmates
          fun loop' hreact node path hopen => isOpen_enter rfl hentered hbelow hreact hopen
      · -- With an edit, whoever skips a node has just come to it.
        have hsame : List.Forall₂ (Mates fun node path => node = entered ∧ result = entered ∧
            path = path' ∧ Called visitors node) world.state placed' := by
          refine mates_mono hmates fun seat hseat node path hskipping hor => ?_
          obtain ⟨-, rfl, hvalue⟩ := hedit hanswer seat hseat node hskipping
          rcases hor with hopen | ⟨-, hpath, hcalled⟩
          · rcases hbelow with hnone | ⟨-, hsize, -⟩
            · exact absurd hopen (hnone _ _)
            · exact absurd hopen.skipped.sizeOf_le (Nat.not_le_of_lt hsize)
          · exact ⟨rfl, hvalue, hpath, hcalled⟩
        refine react_mates ⟨_, _, _, _, _⟩ hlength hsame ?_
        rintro loop' hreact node path ⟨rfl, rfl, rfl, hcalled⟩
        exact isOpen_enter_edit loop rfl hanswer hcalled hreact

theorem withEdits_state {τ : Type} {node : AstValue} {edits : List Edit} {world : World τ} :
    (withEdits node edits world).2.state = world.state := by
  rw [withEdits]
  split
  · rfl
  · cases node <;> rfl

theorem act_leave_mates {loop : Loop (List (Seat σ))} {turn : Turn (List (Seat σ))}
    {frame : Stack} {stack : List Stack} (harrive : loop.arrive root = .ok (some turn))
    (hstack : loop.stack = frame :: stack)
    (hturn : turn = {
      loop := {
        stack := stack
        inArray := frame.inArray
        keys := frame.keys
        idx := frame.idx
        edits := frame.edits
        parent := loop.ancestors.getLast?.getD .none
        path := loop.path
        ancestors := loop.ancestors.dropLast
        world := (withEdits loop.parent loop.edits loop.world).2 }
      isLeaving := true
      isEdited := !loop.edits.isEmpty
      key := if loop.ancestors.isEmpty then none else loop.path.getLast?
      node := (withEdits loop.parent loop.edits loop.world).1 })
    (hlen : visitors.length = loop.world.state.length)
    (hcareful : Careful visitors root loop)
    (h : List.Forall₂ (Mates (IsOpen visitors loop)) loop.world.state placed) :
    StepMates visitors (turn.act visitorKeys (parallelVisitor visitors) root)
      ((turn.withState placed).act visitorKeys (placedVisitor visitors) root) := by
  have hstate : turn.loop.world.state = loop.world.state := by
    rw [hturn]
    exact withEdits_state
  have hopen : ∀ node path, IsOpen visitors loop node path → Called visitors node ∧
      (path = turn.args.path ∧ node = turn.args.node ∨
        path ≠ turn.args.path ∧ path.isPrefixOf turn.args.path ∧ node ≠ turn.args.node) := by
    intro node path hopen
    have hnode : (withEdits loop.parent loop.edits loop.world).1 = loop.parent := by
      rw [hopen.skipped.edits_eq]
      rfl
    simp only [hturn, Turn.args, hnode]
    exact ⟨hopen.called, hopen.skipped.cases_leave⟩
  rw [← hstate] at h hlen
  cases hcall : callVisitor (parallelVisitor visitors) turn.isLeaving turn.args turn.loop.world with
  | error error => exact act_error_mates hcall h
  | ok part =>
      obtain ⟨result, world⟩ := part
      have hedit : result.answer = .edit result → ∀ seat ∈ world.state, ∀ node,
          seat.skipping = .node node → turn.isLeaving = false ∧ node = turn.node ∧
            result = turn.node := hcareful turn result world result harrive hcall
      have hleaving : turn.isLeaving = true := by rw [hturn]
      have hcall' := hcall
      rw [hleaving] at hcall'
      obtain ⟨hresult, placed', hplaced, hmates, hback⟩ :=
        callVisitor_leave_mates hlen hopen h hcall'
      rw [← hleaving] at hplaced
      rw [act_ok turn hcall, act_ok (turn.withState placed) hplaced]
      have hlength : visitors.length = world.state.length :=
        hlen.trans (length_callVisitor hcall).symm
      rcases hresult with rfl | hanswer
      · refine react_mates ⟨_, _, _, _, _⟩ hlength (hback rfl) ?_
        rintro loop' hreact node path ⟨hskipped, hne⟩
        subst hturn
        exact isOpen_leave hstack rfl rfl rfl hreact hskipped hne
      · have hnone : List.Forall₂ (Mates fun _ _ => False) world.state placed' := by
          refine mates_mono hmates fun seat hseat node path hskipping _ => ?_
          obtain ⟨hfalse, -⟩ := hedit hanswer seat hseat node hskipping
          rw [hleaving] at hfalse
          nomatch hfalse
        exact react_mates ⟨_, _, _, _, _⟩ hlength hnone fun _ _ _ _ h => h.elim

theorem arrive_eq_none {loop : Loop σ} (h : loop.arrive root = .ok none) : loop.parent.truthy := by
  rw [Loop.arrive] at h
  split at h
  · cases hleave : loop.leaveFrame <;> simp [hleave, Except.map] at h
  · rw [Loop.enterChild, Except.ok.injEq] at h
    split at h
    · assumption
    · cases h

/-- In a careful turn the two visitors make the same calls. -/
theorem step_mates {loop : Loop (List (Seat σ))}
    (hlen : visitors.length = loop.world.state.length)
    (hcareful : Careful visitors root loop)
    (h : List.Forall₂ (Mates (IsOpen visitors loop)) loop.world.state placed) :
    StepMates visitors (step visitorKeys (parallelVisitor visitors) root loop)
      (step visitorKeys (placedVisitor visitors) root (loop.withState placed)) := by
  rw [step, step, arrive_withState]
  cases harrive : loop.arrive root with
  | error error => exact ⟨placed, rfl, mates_states h⟩
  | ok arrived =>
      cases arrived with
      | none =>
          have htruthy : loop.parent.truthy := arrive_eq_none harrive
          exact ⟨placed, rfl, hlen, mates_mono h fun _ _ node path _ hopen =>
            ⟨hopen.called, hopen.skipped, Or.inl htruthy⟩⟩
      | some turn =>
          rcases arrive_eq_some harrive with ⟨frame, stack, hstack, hturn⟩ |
            ⟨hidx, htruthy, hturn⟩ | ⟨htruthy, key, node, hsize, hturn⟩
          · exact act_leave_mates harrive hstack hturn hlen hcareful h
          · exact act_enter_mates harrive hturn
              (Or.inl fun node path hopen => hopen.truthy.elim htruthy hidx) hlen hcareful h
          · exact act_enter_mates harrive hturn (Or.inr ⟨htruthy, hsize, key, rfl⟩) hlen hcareful h

end Turn

/-! ## Whole runs -/

section Runs

variable {visitorKeys : VisitorKeyMap} {visitors : List (Visitor σ)} {root : AstValue}
variable {placed : List (PlacedSeat σ)}

theorem run_mates (turns : ℕ) (loop : Loop (List (Seat σ)))
    (hlen : visitors.length = loop.world.state.length)
    (hcareful : ∀ n < turns, ∀ loop',
      run visitorKeys (parallelVisitor visitors) root n loop = .next loop' →
        Careful visitors root loop')
    (h : List.Forall₂ (Mates (IsOpen visitors loop)) loop.world.state placed) :
    SameCalls (run visitorKeys (parallelVisitor visitors) root turns loop)
      (run visitorKeys (placedVisitor visitors) root turns (loop.withState placed)) := by
  induction turns generalizing loop placed with
  | zero => exact mates_states h
  | succ turns ih =>
      have hstep : StepMates visitors (step visitorKeys (parallelVisitor visitors) root loop)
          (step visitorKeys (placedVisitor visitors) root (loop.withState placed)) :=
        step_mates hlen (hcareful 0 (Nat.succ_pos turns) loop rfl) h
      rw [run, run]
      cases hnext : step visitorKeys (parallelVisitor visitors) root loop with
      | next loop' =>
          rw [hnext] at hstep
          obtain ⟨placed', hplaced, hlen', hmates⟩ := hstep
          rw [hplaced]
          refine ih loop' hlen' (fun n hn loop'' hrun => ?_) hmates
          refine hcareful (n + 1) (Nat.succ_lt_succ hn) loop'' ?_
          rw [run, hnext]
          exact hrun
      | stop result world =>
          rw [hnext] at hstep
          obtain ⟨placed', hplaced, hstates⟩ := hstep
          rw [hplaced]
          exact ⟨rfl, hstates⟩

end Runs

/-- Visitors that never edit are careful. -/
theorem careful_of_neverEdits {visitors : List (Visitor σ)} {root : AstValue}
    {loop : Loop (List (Seat σ))} (hedits : ∀ visitor ∈ visitors, NeverEdits visitor) :
    Careful visitors root loop := by
  intro turn result world value harrive hcall hanswer
  rcases callVisitor_cases hcall with ⟨-, rfl, -⟩ | ⟨ref, kind, attributes, hnode, hhas⟩
  · nomatch hanswer
  · have hnever : ∀ method state, some method ∈ visitors.map (fun visitor =>
        visitor.visitFn turn.isLeaving kind) → (method turn.args state).1.answer ≠ .edit value := by
      intro method state hmem
      obtain ⟨visitor, hvisitor, hmethod⟩ := List.mem_map.mp hmem
      exact hedits visitor hvisitor turn.isLeaving kind method hmethod turn.args state value
    cases hleaving : turn.isLeaving with
    | false =>
        rw [hleaving] at hcall hnever
        simp only [callVisitor, hnode, visitFn_parallel_enter, if_pos hhas, Except.ok.injEq,
          Prod.mk.injEq] at hcall
        obtain ⟨rfl, -⟩ := hcall
        rcases enterAll_result (visitors.map fun visitor => visitor.visitFn false kind)
          turn.loop.world.state with hnone | ⟨-, method, state, hmem, hvalue⟩
        · rw [hnone] at hanswer
          nomatch hanswer
        · rw [← hvalue] at hanswer
          exact absurd hanswer (hnever method state hmem)
    | true =>
        rw [hleaving] at hcall hnever
        simp only [callVisitor, hnode, visitFn_parallel_leave, if_pos hhas, Except.ok.injEq,
          Prod.mk.injEq] at hcall
        obtain ⟨rfl, -⟩ := hcall
        rcases leaveAll_result (visitors.map fun visitor => visitor.visitFn true kind)
          turn.loop.world.state with hnone | ⟨-, method, state, hmem, hvalue⟩
        · rw [hnone] at hanswer
          nomatch hanswer
        · rw [← hvalue] at hanswer
          exact absurd hanswer (hnever method state hmem)

/-- A visitor that skips the definitions. -/
def definitionSkipping : Visitor Unit :=
  ({ enterKind := fun kind =>
      if kind = "document" then none else some fun _ _ => (.action .skip, ())
     : VisitorMethods Unit }).visitor

theorem neverEdits_definitionSkipping : NeverEdits definitionSkipping := by
  rintro (_ | _) kind method hmethod args state value
  · simp only [Visitor.visitFn, definitionSkipping, VisitorMethods.visitor, Bool.false_eq_true,
      if_false, Option.or_none] at hmethod
    split at hmethod
    · cases hmethod
    · cases hmethod
      exact fun h => by cases h
  · cases hmethod

def twoDefinitions : AstValue :=
  .node 0 "document" [("definitions", .tuple [
    .node 1 "scalar_type_definition" [("name", .node 2 "name" [("value", .other "a")])],
    .node 3 "enum_type_definition" [("name", .node 4 "name" [("value", .other "b")])]])]

/-- A visitor that removes scalar types. -/
def removing : Visitor Unit :=
  ({ enterKind := fun kind =>
      if kind = "scalar_type_definition" then some fun _ _ => (.action .remove, ()) else none
     : VisitorMethods Unit }).visitor

theorem sameCalls_states {step : Step (List (Seat σ))} {step' : Step (List (PlacedSeat σ))}
    (h : SameCalls step step') :
    step.world.state.map (·.state) = step'.world.state.map (·.state) := by
  cases step with
  | next loop =>
      cases step' with
      | next loop' => exact h
      | stop result' world' => exact h.elim
  | stop result world =>
      cases step' with
      | next loop' => exact h.elim
      | stop result' world' => exact h.2

end GraphqlCore.Language.Visiting
