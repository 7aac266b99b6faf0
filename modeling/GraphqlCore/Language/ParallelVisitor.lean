import GraphqlCore.Language.VisitorRewriting
import Mathlib.Data.List.Forall2

/-!
# Visitors in parallel

Visitors that never edit can run in parallel: each of them gets the calls that it gets when it
visits the tree alone.  A visitor is seated in the parallel visitor with its state and with the
node that it skips, and what happens at its seat depends on no other seat.
-/

namespace GraphqlCore.Language.Visiting

variable {σ : Type}

/-! ## Trees -/

/-- A tree that can be visited: the visited attributes hold nodes, tuples of nodes or
`None`. -/
inductive IsAst (visitorKeys : VisitorKeyMap) : AstValue → Prop
  | intro {node : AstValue} (isNode : node.isNode ∨ node.isTuple)
      (children : ∀ child ∈ node.children visitorKeys,
        child.2 ≠ .none → IsAst visitorKeys child.2) : IsAst visitorKeys node

section Trees

variable {visitorKeys : VisitorKeyMap} {node : AstValue} {part : Key × AstValue}

theorem IsAst.child (h : IsAst visitorKeys node) (hpart : part ∈ node.children visitorKeys)
    (hnone : part.2 ≠ .none) : IsAst visitorKeys part.2 := by
  cases h with
  | intro isNode children => exact children part hpart hnone

theorem IsAst.isNode_or_isTuple (h : IsAst visitorKeys node) : node.isNode ∨ node.isTuple := by
  cases h with
  | intro isNode children => exact isNode

theorem sizeOf_getAttr_lt {name : String} (h : node.getAttr name ≠ .none) :
    sizeOf (node.getAttr name) < sizeOf node := by
  cases node with
  | node ref kind attributes =>
      rw [AstValue.getAttr] at h ⊢
      cases hlookup : attributes.lookup name with
      | none => simp [hlookup] at h
      | some value =>
          obtain ⟨before, after, hattributes, -⟩ := List.lookup_eq_some_iff.mp hlookup
          have hmem : (name, value) ∈ attributes := by simp [hattributes]
          have hpair := List.sizeOf_lt_of_mem hmem
          simp only [Prod.mk.sizeOf_spec] at hpair
          simp only [Option.getD_some, AstValue.node.sizeOf_spec]
          omega
  | _ => simp [AstValue.getAttr] at h

/-- A child is a part of its parent, so no node is found below itself. -/
theorem sizeOf_child_lt (hpart : part ∈ node.children visitorKeys) (hnone : part.2 ≠ .none) :
    sizeOf part.2 < sizeOf node := by
  cases node with
  | tuple items =>
      obtain ⟨⟨item, idx⟩, hitem, rfl⟩ := List.mem_map.mp hpart
      have hmem := List.sizeOf_lt_of_mem (List.fst_mem_of_mem_zipIdx hitem)
      simp only [AstValue.tuple.sizeOf_spec]
      simp only at hmem ⊢
      omega
  | node ref kind attributes =>
      obtain ⟨name, -, rfl⟩ := List.mem_map.mp hpart
      have hattr : (AstValue.node ref kind attributes).getAttr name ≠ .none := hnone
      exact sizeOf_getAttr_lt hattr
  | _ => simp [AstValue.children] at hpart

end Trees

/-! ## Seats -/

/-- The visitor asks for no edit. -/
def NeverEdits (visitor : Visitor σ) : Prop :=
  ∀ isLeaving kind method, visitor.visitFn isLeaving kind = some method →
    ∀ args state value, (method args state).1.answer ≠ .edit value

/-- Some visitor has a method for the kind. -/
def hasVisitor (visitors : List (Visitor σ)) (kind : String) : Bool :=
  visitors.any fun visitor =>
    (visitor.visitFn false kind).isSome || (visitor.visitFn true kind).isSome

/-- What entering a node does at the seat of a visitor. -/
def enterSeat (args : VisitArgs) (kind : String) (visitor : Visitor σ) (seat : Seat σ) :
    Seat σ :=
  match seat.skipping, visitor.visitFn false kind with
  | .none, some fn =>
      let (result, state) := fn args seat.state
      match result.answer with
      | .skip => ⟨.node args.node, state⟩
      | .brk => ⟨.brk, state⟩
      | _ => ⟨.none, state⟩
  | _, _ => seat

/-- What leaving a node does at the seat of a visitor. -/
def leaveSeat (args : VisitArgs) (kind : String) (visitor : Visitor σ) (seat : Seat σ) :
    Seat σ :=
  match seat.skipping, visitor.visitFn true kind with
  | .none, some fn =>
      let (result, state) := fn args seat.state
      match result.answer with
      | .brk => ⟨.brk, state⟩
      | _ => ⟨.none, state⟩
  | .node node, _ => if node = args.node then ⟨.none, seat.state⟩ else seat
  | _, _ => seat

/-- What a call of the parallel visitor does at the seat of a visitor. -/
def callSeat (called : String → Bool) (isLeaving : Bool) (args : VisitArgs)
    (visitor : Visitor σ) (seat : Seat σ) : Seat σ :=
  match args.node with
  | .node _ kind _ =>
      if called kind then
        if isLeaving then leaveSeat args kind visitor seat else enterSeat args kind visitor seat
      else seat
  | _ => seat

/-- What the visit of some children does at the seat of a visitor. -/
def seatChildren (seatNode : Place → AstValue → Seat σ → Seat σ) (place : Place)
    (node : AstValue) (children : List (Key × AstValue)) (seat : Seat σ) : Seat σ :=
  children.foldl
    (fun seat child =>
      if child.2 = .none then seat else seatNode (place.child node child.1) child.2 seat) seat

/-- What the visit of a node does at the seat of a visitor. -/
def seatNode (visitorKeys : VisitorKeyMap) (called : String → Bool) (visitor : Visitor σ) :
    ℕ → Place → AstValue → Seat σ → Seat σ
  | 0, _, _, seat => seat
  | fuel + 1, place, node, seat =>
      callSeat called true (place.args node) visitor
        (seatChildren (seatNode visitorKeys called visitor fuel) place node
          (node.children visitorKeys) (callSeat called false (place.args node) visitor seat))

/-! ### The parallel visitor seat by seat -/

section Parallel

variable {visitors : List (Visitor σ)} {seats : List (Seat σ)} {args : VisitArgs}
variable {kind : String}

theorem enterAll_eq (hedits : ∀ visitor ∈ visitors, NeverEdits visitor)
    (hlen : visitors.length = seats.length) :
    enterAll args (visitors.map fun visitor => (visitor.getEnterLeaveForKind kind).enter) seats =
      (.none, List.zipWith (enterSeat args kind) visitors seats) := by
  induction visitors generalizing seats with
  | nil =>
      obtain rfl : seats = [] := List.length_eq_zero_iff.mp hlen.symm
      rfl
  | cons visitor visitors ih =>
      cases seats with
      | nil => nomatch hlen
      | cons seat seats =>
          obtain ⟨hvisitor, hvisitors⟩ := List.forall_mem_cons.mp hedits
          have hrest := ih hvisitors (Nat.succ.inj hlen)
          have hfn : visitor.visitFn false kind = (visitor.getEnterLeaveForKind kind).enter := rfl
          obtain ⟨skipping, state⟩ := seat
          cases henter : (visitor.getEnterLeaveForKind kind).enter with
          | none =>
              cases skipping <;>
                simp only [List.map_cons, List.zipWith_cons_cons, enterAll, enterSeat, hfn,
                  henter, hrest]
          | some fn =>
              cases skipping with
              | none =>
                  cases hanswer : (fn args state).1.answer with
                  | edit value => exact absurd hanswer (hvisitor false kind fn henter _ _ value)
                  | _ =>
                      simp only [List.map_cons, List.zipWith_cons_cons, enterAll, enterSeat, hfn,
                        henter, hrest, hanswer]
              | _ =>
                  simp only [List.map_cons, List.zipWith_cons_cons, enterAll, enterSeat, henter,
                    hrest]

theorem leaveAll_eq (hedits : ∀ visitor ∈ visitors, NeverEdits visitor)
    (hlen : visitors.length = seats.length) :
    leaveAll args (visitors.map fun visitor => (visitor.getEnterLeaveForKind kind).leave) seats =
      (.none, List.zipWith (leaveSeat args kind) visitors seats) := by
  induction visitors generalizing seats with
  | nil =>
      obtain rfl : seats = [] := List.length_eq_zero_iff.mp hlen.symm
      rfl
  | cons visitor visitors ih =>
      cases seats with
      | nil => nomatch hlen
      | cons seat seats =>
          obtain ⟨hvisitor, hvisitors⟩ := List.forall_mem_cons.mp hedits
          have hrest := ih hvisitors (Nat.succ.inj hlen)
          have hfn : visitor.visitFn true kind = (visitor.getEnterLeaveForKind kind).leave := rfl
          obtain ⟨skipping, state⟩ := seat
          cases skipping with
          | node node =>
              by_cases hnode : node = args.node <;>
                simp only [List.map_cons, List.zipWith_cons_cons, leaveAll, leaveSeat, hrest,
                  hnode, if_true, if_false]
          | none =>
              cases hleave : (visitor.getEnterLeaveForKind kind).leave with
              | none =>
                  simp only [List.map_cons, List.zipWith_cons_cons, leaveAll, leaveSeat, hfn,
                    hleave, hrest]
              | some fn =>
                  cases hanswer : (fn args state).1.answer with
                  | edit value => exact absurd hanswer (hvisitor true kind fn hleave _ _ value)
                  | _ =>
                      simp only [List.map_cons, List.zipWith_cons_cons, leaveAll, leaveSeat, hfn,
                        hleave, hrest, hanswer]
          | brk =>
              cases hleave : (visitor.getEnterLeaveForKind kind).leave <;>
                simp only [List.map_cons, List.zipWith_cons_cons, leaveAll, leaveSeat, hleave,
                  hrest]

theorem zipWith_snd {f : Visitor σ → Seat σ → Seat σ}
    (hlen : visitors.length = seats.length)
    (h : ∀ visitor ∈ visitors, ∀ seat, f visitor seat = seat) :
    List.zipWith f visitors seats = seats := by
  induction visitors generalizing seats with
  | nil =>
      obtain rfl : seats = [] := List.length_eq_zero_iff.mp hlen.symm
      rfl
  | cons visitor visitors ih =>
      cases seats with
      | nil => nomatch hlen
      | cons seat seats =>
          obtain ⟨hvisitor, hvisitors⟩ := List.forall_mem_cons.mp h
          rw [List.zipWith_cons_cons, hvisitor seat, ih (Nat.succ.inj hlen) hvisitors]

theorem length_seats {f : Visitor σ → Seat σ → Seat σ} (hlen : visitors.length = seats.length) :
    visitors.length = (List.zipWith f visitors seats).length := by
  rw [List.length_zipWith, ← hlen, Nat.min_self]

theorem zipWith_zipWith {f g : Visitor σ → Seat σ → Seat σ} :
    List.zipWith f visitors (List.zipWith g visitors seats) =
      List.zipWith (fun visitor seat => f visitor (g visitor seat)) visitors seats := by
  induction visitors generalizing seats with
  | nil => rfl
  | cons visitor visitors ih =>
      cases seats with
      | nil => rfl
      | cons seat seats => simp only [List.zipWith_cons_cons, ih]

/-- The parallel visitor has methods for a kind when some visitor has one. -/
theorem getEnterLeave_parallel : (parallelVisitor visitors).getEnterLeaveForKind kind =
    if hasVisitor visitors kind then
      { enter := some fun args seats => enterAll args
          (visitors.map fun visitor => (visitor.getEnterLeaveForKind kind).enter) seats
        leave := some fun args seats => leaveAll args
          (visitors.map fun visitor => (visitor.getEnterLeaveForKind kind).leave) seats }
    else { enter := none, leave := none } := by
  have hhas : ((visitors.map fun visitor => (visitor.getEnterLeaveForKind kind).enter).any
      Option.isSome || (visitors.map fun visitor =>
        (visitor.getEnterLeaveForKind kind).leave).any Option.isSome) =
      hasVisitor visitors kind := by
    rw [Bool.eq_iff_iff]
    simp only [hasVisitor, Bool.or_eq_true, List.any_eq_true, List.mem_map]
    constructor
    · rintro (⟨_, ⟨visitor, hvisitor, rfl⟩, hsome⟩ | ⟨_, ⟨visitor, hvisitor, rfl⟩, hsome⟩)
      · exact ⟨visitor, hvisitor, Or.inl hsome⟩
      · exact ⟨visitor, hvisitor, Or.inr hsome⟩
    · rintro ⟨visitor, hvisitor, hsome | hsome⟩
      · exact Or.inl ⟨_, ⟨visitor, hvisitor, rfl⟩, hsome⟩
      · exact Or.inr ⟨_, ⟨visitor, hvisitor, rfl⟩, hsome⟩
  rw [← hhas]
  rfl

/-- A call of the parallel visitor is a call at each seat. -/
theorem callVisitor_parallel {isLeaving : Bool} {fresh : ℕ}
    (hedits : ∀ visitor ∈ visitors, NeverEdits visitor) (hlen : visitors.length = seats.length)
    (hnode : args.node.isNode ∨ args.node.isTuple) :
    callVisitor (parallelVisitor visitors) isLeaving args ⟨fresh, seats⟩ =
      .ok (.none, ⟨fresh, List.zipWith (callSeat (hasVisitor visitors) isLeaving args)
        visitors seats⟩) := by
  cases hargs : args.node with
  | tuple items =>
      have hseats : List.zipWith (callSeat (hasVisitor visitors) isLeaving args) visitors seats =
          seats := by
        refine zipWith_snd hlen fun visitor _ seat => ?_
        simp only [callSeat, hargs]
      simp only [callVisitor, hargs, hseats]
  | node ref kind attributes =>
      cases hcalled : hasVisitor visitors kind with
      | false =>
          have hseats : List.zipWith (callSeat (hasVisitor visitors) isLeaving args) visitors
              seats = seats := by
            refine zipWith_snd hlen fun visitor _ seat => ?_
            simp [callSeat, hargs, hcalled]
          have hfn : (parallelVisitor visitors).visitFn isLeaving kind = none := by
            cases isLeaving <;> simp [Visitor.visitFn, getEnterLeave_parallel, hcalled]
          simp only [callVisitor, hargs, hseats, hfn]
      | true =>
          have hseats : ∀ seats : List (Seat σ),
              List.zipWith (callSeat (hasVisitor visitors) isLeaving args) visitors seats =
                List.zipWith (if isLeaving then leaveSeat args kind else enterSeat args kind)
                  visitors seats := by
            intro seats
            congr 1
            funext visitor seat
            cases isLeaving <;> simp [callSeat, hargs, hcalled]
          rw [hseats]
          cases isLeaving with
          | false =>
              have hfn : (parallelVisitor visitors).visitFn false kind = some fun args seats =>
                  enterAll args (visitors.map fun visitor =>
                    (visitor.getEnterLeaveForKind kind).enter) seats := by
                simp [Visitor.visitFn, getEnterLeave_parallel, hcalled]
              simp only [callVisitor, hargs, hfn, enterAll_eq hedits hlen, Bool.false_eq_true,
                if_false]
          | true =>
              have hfn : (parallelVisitor visitors).visitFn true kind = some fun args seats =>
                  leaveAll args (visitors.map fun visitor =>
                    (visitor.getEnterLeaveForKind kind).leave) seats := by
                simp [Visitor.visitFn, getEnterLeave_parallel, hcalled]
              simp only [callVisitor, hargs, hfn, leaveAll_eq hedits hlen, if_true]
  | _ => simp [hargs, AstValue.isNode, AstValue.isTuple] at hnode

end Parallel

section Traversal

variable {visitorKeys : VisitorKeyMap} {visitors : List (Visitor σ)}

/-- The parallel visitor goes through the whole tree, and each seat for itself. -/
theorem visitNode_parallel (hedits : ∀ visitor ∈ visitors, NeverEdits visitor) (fresh fuel : ℕ)
    (place : Place) (node : AstValue) (seats : List (Seat σ))
    (hlen : visitors.length = seats.length) (hast : IsAst visitorKeys node)
    (hfuel : sizeOf node < fuel) :
    visitNode visitorKeys (parallelVisitor visitors) fuel place node [] ⟨fresh, seats⟩ =
      .done [] ⟨fresh, List.zipWith (fun visitor seat =>
        seatNode visitorKeys (hasVisitor visitors) visitor fuel place node seat)
          visitors seats⟩ := by
  induction fuel generalizing place node seats with
  | zero => exact absurd hfuel (Nat.not_lt_zero _)
  | succ fuel ih =>
      have hnode : node.isNode ∨ node.isTuple := hast.isNode_or_isTuple
      have hchildren : ∀ (rest : List (Key × AstValue)) (seats : List (Seat σ)),
          visitors.length = seats.length → (∀ part ∈ rest, part ∈ node.children visitorKeys) →
          visitChildren (visitNode visitorKeys (parallelVisitor visitors) fuel) place node rest
              [] ⟨fresh, seats⟩ =
            .done [] ⟨fresh, List.zipWith (fun visitor seat =>
              seatChildren (seatNode visitorKeys (hasVisitor visitors) visitor fuel) place node
                rest seat) visitors seats⟩ := by
        intro rest
        induction rest with
        | nil =>
            intro seats hlen _
            simp only [seatChildren, List.foldl_nil]
            rw [zipWith_snd hlen fun visitor _ seat => rfl]
            rfl
        | cons part rest ihrest =>
            intro seats hlen hmem
            obtain ⟨hpart, hrest⟩ := List.forall_mem_cons.mp hmem
            obtain ⟨key, child⟩ := part
            rw [visitChildren]
            by_cases hnone : child = .none
            · rw [if_pos hnone, ihrest seats hlen hrest]
              simp only [seatChildren, List.foldl_cons, hnone, if_true]
            · have hsize : sizeOf child < fuel := by
                have hlt := sizeOf_child_lt hpart hnone
                simp only at hlt
                omega
              rw [if_neg hnone, ih _ child seats hlen (hast.child hpart hnone) hsize,
                Outcome.andThen_done, ihrest _ (length_seats hlen) hrest, zipWith_zipWith]
              simp only [seatChildren, List.foldl_cons, hnone, if_false]
      rw [visitNode]
      simp only
      rw [callVisitor_parallel hedits hlen hnode]
      simp only [AstValue.answer]
      rw [hchildren _ _ (length_seats hlen) fun part hpart => hpart, Outcome.andThen_done,
        leaveNode]
      simp only [withEdits, List.isEmpty_nil, if_true]
      rw [callVisitor_parallel hedits (length_seats (length_seats hlen)) hnode]
      simp only [AstValue.answer, zipWith_zipWith]
      rfl

end Traversal

/-! ### A seat and the visitor alone -/

/-- The seat after a visit, when the visitor alone has this outcome.  Alone it fails when it
skips the root. -/
def SeatFollows (atRoot : Prop) (fresh : ℕ) (seat : Seat σ) : Outcome σ → Prop
  | .done edits world =>
      edits = [] ∧ world = ⟨fresh, seat.state⟩ ∧ seat.skipping = .none
  | .broke edits world =>
      edits = [] ∧ world = ⟨fresh, seat.state⟩ ∧ seat.skipping = .brk
  | .raised _ world =>
      atRoot ∧ world = ⟨fresh, seat.state⟩ ∧ seat.skipping = .none
  | .exhausted => False

section Seats

variable {visitorKeys : VisitorKeyMap} {called : String → Bool} {visitor : Visitor σ}

/-- The visitor is called for all kinds for which it has methods. -/
def IsCalled (called : String → Bool) (visitor : Visitor σ) : Prop :=
  ∀ isLeaving kind, (visitor.visitFn isLeaving kind).isSome → called kind

theorem callSeat_brk {isLeaving : Bool} {args : VisitArgs} {state : σ} :
    callSeat called isLeaving args visitor ⟨.brk, state⟩ = ⟨.brk, state⟩ := by
  cases hargs : args.node <;> cases isLeaving <;>
    simp [callSeat, hargs, leaveSeat, enterSeat]

/-- A visitor that skips another node is left alone. -/
theorem callSeat_node {isLeaving : Bool} {args : VisitArgs} {state : σ} {node : AstValue}
    (hne : node ≠ args.node) :
    callSeat called isLeaving args visitor ⟨.node node, state⟩ = ⟨.node node, state⟩ := by
  cases hargs : args.node <;> cases isLeaving <;>
    simp [callSeat, hargs, leaveSeat, enterSeat, hargs ▸ hne]

theorem seatChildren_keeps {seatNode : Place → AstValue → Seat σ → Seat σ} {place : Place}
    {node : AstValue} {children : List (Key × AstValue)} {seat : Seat σ}
    (h : ∀ part ∈ children, part.2 ≠ .none →
      seatNode (place.child node part.1) part.2 seat = seat) :
    seatChildren seatNode place node children seat = seat := by
  induction children with
  | nil => rfl
  | cons part children ih =>
      obtain ⟨hpart, hchildren⟩ := List.forall_mem_cons.mp h
      rw [seatChildren, List.foldl_cons]
      by_cases hnone : part.2 = .none
      · rw [if_pos hnone]
        exact ih hchildren
      · rw [if_neg hnone, hpart hnone]
        exact ih hchildren

/-- The seat of a visitor that skips or has stopped stays as it is below the node. -/
theorem seatNode_skipping (fuel : ℕ) (place : Place) (node : AstValue) (seat : Seat σ)
    (hskipping : seat.skipping = .brk ∨
      ∃ skipped, seat.skipping = .node skipped ∧ sizeOf node < sizeOf skipped) :
    seatNode visitorKeys called visitor fuel place node seat = seat := by
  induction fuel generalizing place node with
  | zero => rfl
  | succ fuel ih =>
      have hcall : ∀ isLeaving, callSeat called isLeaving (place.args node) visitor seat =
          seat := by
        intro isLeaving
        obtain ⟨skipping, state⟩ := seat
        rcases hskipping with rfl | ⟨skipped, rfl, hsize⟩
        · exact callSeat_brk
        · refine callSeat_node fun h => ?_
          rw [h] at hsize
          exact Nat.lt_irrefl _ hsize
      have hchildren : seatChildren (seatNode visitorKeys called visitor fuel) place node
          (node.children visitorKeys) seat = seat := by
        refine seatChildren_keeps fun part hpart hnone => ih _ _ ?_
        refine hskipping.imp_right ?_
        rintro ⟨skipped, hnode, hsize⟩
        exact ⟨skipped, hnode, Nat.lt_trans (sizeOf_child_lt hpart hnone) hsize⟩
      rw [seatNode, hcall, hchildren, hcall]

/-- A call at a seat is the call of the visitor alone. -/
theorem callSeat_none (hedits : NeverEdits visitor) (hcalled : IsCalled called visitor)
    (isLeaving : Bool) (args : VisitArgs) (fresh : ℕ) (state : σ)
    (hnode : args.node.isNode ∨ args.node.isTuple) :
    ∃ result state', callVisitor visitor isLeaving args ⟨fresh, state⟩ =
        .ok (result, ⟨fresh, state'⟩) ∧
      match result.answer with
      | .brk => callSeat called isLeaving args visitor ⟨.none, state⟩ = ⟨.brk, state'⟩
      | .skip => callSeat called isLeaving args visitor ⟨.none, state⟩ =
            ⟨if isLeaving then .none else .node args.node, state'⟩ ∧
          callSeat called true args visitor ⟨.node args.node, state'⟩ = ⟨.none, state'⟩
      | .idle => callSeat called isLeaving args visitor ⟨.none, state⟩ = ⟨.none, state'⟩
      | .edit _ => False := by
  cases hargs : args.node with
  | tuple items =>
      exact ⟨.none, state, by simp [callVisitor, hargs], by simp [AstValue.answer, callSeat, hargs]⟩
  | node ref kind attributes =>
      cases hfn : visitor.visitFn isLeaving kind with
      | none =>
          refine ⟨.none, state, by simp [callVisitor, hargs, hfn], ?_⟩
          cases isLeaving <;> simp [AstValue.answer, callSeat, hargs, leaveSeat, enterSeat, hfn]
      | some fn =>
          have hkind : called kind = true := hcalled isLeaving kind (by rw [hfn]; rfl)
          refine ⟨(fn args state).1, (fn args state).2, by simp [callVisitor, hargs, hfn], ?_⟩
          cases hanswer : (fn args state).1.answer with
          | edit value => exact absurd hanswer (hedits isLeaving kind fn hfn args state value)
          | brk =>
              cases isLeaving <;>
                simp [callSeat, hargs, hkind, leaveSeat, enterSeat, hfn, hanswer]
          | skip =>
              cases isLeaving <;>
                simp [callSeat, hargs, hkind, leaveSeat, enterSeat, hfn, hanswer]
          | idle =>
              cases isLeaving <;>
                simp [callSeat, hargs, hkind, leaveSeat, enterSeat, hfn, hanswer]
  | _ => simp [hargs, AstValue.isNode, AstValue.isTuple] at hnode

theorem seatNode_follows (hedits : NeverEdits visitor) (hcalled : IsCalled called visitor)
    (fresh fuel : ℕ) (place : Place) (node : AstValue) (state : σ)
    (hast : IsAst visitorKeys node) (hfuel : sizeOf node < fuel) :
    SeatFollows (place.path = []) fresh
      (seatNode visitorKeys called visitor fuel place node ⟨.none, state⟩)
      (visitNode visitorKeys visitor fuel place node [] ⟨fresh, state⟩) := by
  induction fuel generalizing place node state with
  | zero => exact absurd hfuel (Nat.not_lt_zero _)
  | succ fuel ih =>
      have hnode : node.isNode ∨ node.isTuple := hast.isNode_or_isTuple
      -- Children whose siblings were all visited, with the seat of a visitor that goes on.
      have hchildren : ∀ (rest : List (Key × AstValue)) (state : σ),
          (∀ part ∈ rest, part ∈ node.children visitorKeys) →
          SeatFollows False fresh
            (seatChildren (seatNode visitorKeys called visitor fuel) place node rest ⟨.none, state⟩)
            (visitChildren (visitNode visitorKeys visitor fuel) place node rest []
              ⟨fresh, state⟩) := by
        intro rest
        induction rest with
        | nil => exact fun state _ => ⟨rfl, rfl, rfl⟩
        | cons part rest ihrest =>
            intro state hmem
            obtain ⟨hpart, hrest⟩ := List.forall_mem_cons.mp hmem
            obtain ⟨key, child⟩ := part
            rw [seatChildren, List.foldl_cons, visitChildren]
            by_cases hnone : child = .none
            · rw [if_pos hnone, if_pos hnone]
              exact ihrest state hrest
            · have hsize : sizeOf child < fuel := by
                have hlt := sizeOf_child_lt hpart hnone
                simp only at hlt
                omega
              have hfirst := ih (place.child node key) child state (hast.child hpart hnone) hsize
              rw [if_neg hnone, if_neg hnone]
              generalize seatNode visitorKeys called visitor fuel (place.child node key) child
                ⟨.none, state⟩ = seat at hfirst ⊢
              obtain ⟨skipping, state'⟩ := seat
              cases houtcome : visitNode visitorKeys visitor fuel (place.child node key) child []
                ⟨fresh, state⟩ with
              | exhausted => exact (houtcome ▸ hfirst).elim
              | raised error world =>
                  rw [houtcome] at hfirst
                  simp [SeatFollows, Place.child] at hfirst
              | broke edits world =>
                  rw [houtcome] at hfirst
                  obtain ⟨rfl, rfl, rfl⟩ := hfirst
                  have hkeeps : seatChildren (seatNode visitorKeys called visitor fuel) place node
                      rest ⟨.brk, state'⟩ = ⟨.brk, state'⟩ :=
                    seatChildren_keeps fun part _ _ => seatNode_skipping fuel _ _ _ (Or.inl rfl)
                  rw [Outcome.andThen_broke]
                  change SeatFollows False fresh (seatChildren _ place node rest ⟨.brk, state'⟩) _
                  rw [hkeeps]
                  exact ⟨rfl, rfl, rfl⟩
              | done edits world =>
                  rw [houtcome] at hfirst
                  obtain ⟨rfl, rfl, rfl⟩ := hfirst
                  exact ihrest state' hrest
      obtain ⟨result, state', hcall, hseat⟩ :=
        callSeat_none hedits hcalled false (place.args node) fresh state hnode
      rw [seatNode, visitNode]
      simp only
      rw [hcall]
      cases hanswer : result.answer with
      | edit value => simp [hanswer] at hseat
      | brk =>
          simp only [hanswer] at hseat ⊢
          rw [hseat, seatChildren_keeps fun part _ _ => seatNode_skipping fuel _ _ _ (Or.inl rfl),
            callSeat_brk]
          exact ⟨rfl, rfl, rfl⟩
      | skip =>
          simp only [hanswer, Bool.false_eq_true, if_false] at hseat ⊢
          have hkeeps : ∀ part ∈ node.children visitorKeys, part.2 ≠ .none →
              seatNode visitorKeys called visitor fuel (place.child node part.1) part.2
                ⟨.node node, state'⟩ = ⟨.node node, state'⟩ := fun part hpart hnone =>
            seatNode_skipping fuel _ _ _ (Or.inr ⟨node, rfl, sizeOf_child_lt hpart hnone⟩)
          obtain ⟨henter, hleave⟩ := hseat
          have hargs : (place.args node).node = node := rfl
          rw [hargs] at henter hleave
          rw [henter, seatChildren_keeps hkeeps, hleave, passOver]
          by_cases hpath : place.path = []
          · rw [if_pos (by simp [hpath])]
            exact ⟨hpath, rfl, rfl⟩
          · rw [if_neg (by simp [hpath])]
            exact ⟨rfl, rfl, rfl⟩
      | idle =>
          simp only [hanswer] at hseat ⊢
          have hbelow := hchildren (node.children visitorKeys) state' fun part hpart => hpart
          rw [hseat]
          generalize seatChildren (seatNode visitorKeys called visitor fuel) place node
            (node.children visitorKeys) ⟨.none, state'⟩ = seat at hbelow ⊢
          obtain ⟨skipping, state''⟩ := seat
          cases houtcome : visitChildren (visitNode visitorKeys visitor fuel) place node
            (node.children visitorKeys) [] ⟨fresh, state'⟩ with
          | exhausted => exact (houtcome ▸ hbelow).elim
          | raised error world => exact (houtcome ▸ hbelow).1.elim
          | broke edits world =>
              rw [houtcome] at hbelow
              obtain ⟨rfl, rfl, rfl⟩ := hbelow
              rw [Outcome.andThen_broke, callSeat_brk]
              exact ⟨rfl, rfl, rfl⟩
          | done edits world =>
              rw [houtcome] at hbelow
              obtain ⟨rfl, rfl, rfl⟩ := hbelow
              obtain ⟨left, last, hcall, hseat⟩ :=
                callSeat_none hedits hcalled true (place.args node) fresh state'' hnode
              rw [Outcome.andThen_done, leaveNode]
              simp only [withEdits, List.isEmpty_nil, if_true]
              rw [hcall]
              cases hanswer : left.answer with
              | edit value => simp [hanswer] at hseat
              | brk =>
                  simp only [hanswer] at hseat ⊢
                  rw [hseat]
                  exact ⟨rfl, rfl, rfl⟩
              | skip =>
                  simp only [hanswer, if_true] at hseat ⊢
                  rw [hseat.1]
                  exact ⟨rfl, rfl, rfl⟩
              | idle =>
                  simp only [hanswer] at hseat ⊢
                  rw [hseat]
                  exact ⟨rfl, rfl, rfl⟩

end Seats

/-! ## Alone and in parallel -/

theorem NeverEdits.recording {visitor : Visitor σ} (h : NeverEdits visitor) :
    NeverEdits visitor.recording := by
  intro isLeaving kind method hmethod args state value
  rw [visitFn_recording] at hmethod
  obtain ⟨original, horiginal, rfl⟩ := Option.map_eq_some_iff.mp hmethod
  exact h isLeaving kind original horiginal args state.1 value

/-- The visitor alone ends in the state of its seat. -/
theorem visits_of_seatFollows {visitorKeys : VisitorKeyMap} {visitor : Visitor σ}
    {root : AstValue} {fresh fuel : ℕ} {state : σ} {seat : Seat σ} {atRoot : Prop}
    (hroot : root.isNode)
    (h : SeatFollows atRoot fresh seat
      (visitNode visitorKeys visitor fuel .root root [] ⟨fresh, state⟩)) :
    ∃ result, Visits visitorKeys visitor root ⟨fresh, state⟩ result ⟨fresh, seat.state⟩ := by
  cases houtcome : visitNode visitorKeys visitor fuel .root root [] ⟨fresh, state⟩ with
  | exhausted => exact (houtcome ▸ h).elim
  | raised error world =>
      rw [houtcome] at h
      obtain ⟨-, rfl, -⟩ := h
      exact ⟨.error error, (visits_iff hroot).mpr ⟨fuel, by rw [houtcome]; rfl⟩⟩
  | broke edits world =>
      rw [houtcome] at h
      obtain ⟨rfl, rfl, -⟩ := h
      exact ⟨.ok root, (visits_iff hroot).mpr ⟨fuel, by rw [houtcome]; rfl⟩⟩
  | done edits world =>
      rw [houtcome] at h
      obtain ⟨rfl, rfl, -⟩ := h
      exact ⟨.ok root, (visits_iff hroot).mpr ⟨fuel, by rw [houtcome]; rfl⟩⟩

/-- Visitors that never edit get in parallel the calls that each of them gets alone: after
the parallel visit every seat holds the state and the calls with which the visit of its
visitor alone ends. -/
theorem parallel_calls_alone (visitorKeys : VisitorKeyMap) (root : AstValue) (fresh : ℕ)
    (visitors : List (Visitor σ × σ)) (hroot : root.isNode) (hast : IsAst visitorKeys root)
    (hedits : ∀ visitor ∈ visitors, NeverEdits visitor.1) :
    ∃ seats, Visits visitorKeys (parallelVisitor (visitors.map fun visitor => visitor.1.recording))
        root ⟨fresh, visitors.map fun visitor => ⟨.none, visitor.2, []⟩⟩ (.ok root)
        ⟨fresh, seats⟩ ∧
      List.Forall₂ (fun visitor seat => ∃ result,
        Visits visitorKeys visitor.1.recording root ⟨fresh, visitor.2, []⟩ result
          ⟨fresh, seat.state⟩) visitors seats := by
  have hrecording : ∀ visitor ∈ visitors.map fun visitor => visitor.1.recording,
      NeverEdits visitor := by
    intro visitor hvisitor
    obtain ⟨original, horiginal, rfl⟩ := List.mem_map.mp hvisitor
    exact (hedits original horiginal).recording
  have hdone := visitNode_parallel hrecording fresh (sizeOf root + 1) .root root
    (visitors.map fun visitor => ⟨.none, visitor.2, []⟩) (by simp) hast (Nat.lt_succ_self _)
  refine ⟨_, (visits_iff hroot).mpr ⟨sizeOf root + 1, by rw [hdone]; rfl⟩, ?_⟩
  rw [List.zipWith_map, List.zipWith_self, List.forall₂_map_right_iff, List.forall₂_same]
  intro visitor hvisitor
  have hcalled : IsCalled
      (hasVisitor (visitors.map fun visitor => visitor.1.recording)) visitor.1.recording := by
    intro isLeaving kind hsome
    refine List.any_eq_true.mpr ⟨_, List.mem_map.mpr ⟨visitor, hvisitor, rfl⟩, ?_⟩
    cases isLeaving <;> simp [hsome]
  exact visits_of_seatFollows hroot (seatNode_follows (hedits visitor hvisitor).recording hcalled
    fresh (sizeOf root + 1) .root root (visitor.2, []) hast (Nat.lt_succ_self _))

theorem isAst_scalarDocument : IsAst queryDocumentKeys scalarDocument := by
  have hname : IsAst queryDocumentKeys (.node 2 "name" [("value", .other "a")]) :=
    .intro (Or.inl rfl) fun part hpart => nomatch hpart
  have hdefinition : IsAst queryDocumentKeys (.node 1 "scalar_type_definition"
      [("name", .node 2 "name" [("value", .other "a")])]) := by
    have hkeys : queryDocumentKeys "scalar_type_definition" =
        ["description", "name", "directives"] := rfl
    refine .intro (Or.inl rfl) fun part hpart hnone => ?_
    simp [AstValue.children, hkeys, AstValue.getAttr, List.lookup_cons, List.lookup_nil] at hpart
    rcases hpart with rfl | rfl | rfl
    · exact absurd rfl hnone
    · exact hname
    · exact absurd rfl hnone
  have hdefinitions : IsAst queryDocumentKeys (.tuple [.node 1 "scalar_type_definition"
      [("name", .node 2 "name" [("value", .other "a")])]]) := by
    refine .intro (Or.inr rfl) fun part hpart _ => ?_
    simp [AstValue.children] at hpart
    rw [hpart]
    exact hdefinition
  have hkeys : queryDocumentKeys "document" = ["definitions"] := rfl
  refine .intro (Or.inl rfl) fun part hpart _ => ?_
  simp [scalarDocument, AstValue.children, hkeys, AstValue.getAttr, List.lookup_cons, List.lookup_nil] at hpart
  rw [hpart]
  exact hdefinitions

/-- A visitor that stops at the first name. -/
def stopping : Visitor Unit :=
  ({ enterKind := fun kind =>
      if kind = "name" then some fun _ _ => (.action .brk, ()) else none
     : VisitorMethods Unit }).visitor

theorem neverEdits_stopping : NeverEdits stopping := by
  rintro (_ | _) kind method hmethod args state value
  · simp only [Visitor.visitFn, stopping, VisitorMethods.visitor, Bool.false_eq_true, if_false,
      Option.or_none] at hmethod
    split at hmethod
    · cases hmethod
      exact fun h => by cases h
    · cases hmethod
  · cases hmethod

theorem parallel_calls_alone_stopping : ∃ seats,
    Visits queryDocumentKeys (parallelVisitor [skipping.recording, stopping.recording])
        scalarDocument ⟨8, [⟨.none, (), []⟩, ⟨.none, (), []⟩]⟩ (.ok scalarDocument) ⟨8, seats⟩ ∧
      List.Forall₂ (fun visitor seat => ∃ result,
        Visits queryDocumentKeys visitor.1.recording scalarDocument ⟨8, visitor.2, []⟩ result
          ⟨8, seat.state⟩) [(skipping, ()), (stopping, ())] seats := by
  refine parallel_calls_alone queryDocumentKeys scalarDocument 8
    [(skipping, ()), (stopping, ())] rfl isAst_scalarDocument ?_
  rw [List.forall_mem_cons, List.forall_mem_singleton]
  constructor
  · rintro (_ | _) kind method hmethod args state value
    · cases hmethod
      exact fun h => nomatch h
    · nomatch hmethod
  · exact neverEdits_stopping

end GraphqlCore.Language.Visiting
