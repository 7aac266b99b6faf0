import GraphqlCore.Language.VisitorFrames

/-!
# The visitor as a recursive rewriting

What `visit` is for: enter a node, descend into it or into its replacement, rewrite the
children in the order of the visitor keys, drop the list items that were removed, and leave
the node.  The loop computes this for every visitor that only edits and skips, except that it
cannot pop the path when the root is skipped.
-/

namespace GraphqlCore.Language.Visiting

variable {σ : Type}

/-! ## The plain recursion -/

/-- What becomes of a node. -/
inductive Effect
  | kept
  | replaced (value : AstValue)
  | removed

namespace Effect

/-- What stands in the list in place of the item. -/
def items (effect : Effect) (item : AstValue) : List AstValue :=
  match effect with
  | .kept => [item]
  | .replaced value => [value]
  | .removed => []

def isEdit : Effect → Bool
  | .kept => false
  | _ => true

end Effect

/-- The result of rewriting: out of fuel, an error, or a value. -/
inductive Rewritten (σ α : Type)
  | exhausted
  | raised (error : VisitError) (world : World σ)
  | done (value : α) (world : World σ)

def Rewritten.andThen {α β : Type} (rewritten : Rewritten σ α)
    (rest : α → World σ → Rewritten σ β) : Rewritten σ β :=
  match rewritten with
  | .exhausted => .exhausted
  | .raised error world => .raised error world
  | .done value world => rest value world

/-- The attributes with a new value for one of them. -/
def setAttr (attributes : List (String × AstValue)) (name : String) (value : AstValue) :
    List (String × AstValue) :=
  attributes.map fun (name', value') => (name', if name' = name then value else value')

section Children

variable (rewriteNode : Place → AstValue → World σ → Rewritten σ Effect)
variable (place : Place) (node : AstValue)

/-- The items of a list, and whether any of them was edited. -/
def rewriteItems : List (AstValue × ℕ) → World σ → Rewritten σ (List AstValue × Bool)
  | [], world => .done ([], false) world
  | (item, idx) :: rest, world =>
      if item = .none then
        (rewriteItems rest world).andThen fun (items, edited) world =>
          .done (item :: items, edited) world
      else
        (rewriteNode (place.child node (.index idx)) item world).andThen fun effect world =>
          (rewriteItems rest world).andThen fun (items, edited) world =>
            .done (effect.items item ++ items, effect.isEdit || edited) world

/-- The attributes of a node that are visited, and whether any of them was edited. -/
def rewriteAttributes : List String → List (String × AstValue) × Bool → World σ →
    Rewritten σ (List (String × AstValue) × Bool)
  | [], rewritten, world => .done rewritten world
  | name :: names, (attributes, edited), world =>
      if node.getAttr name = .none then rewriteAttributes names (attributes, edited) world
      else
        (rewriteNode (place.child node (.name name)) (node.getAttr name) world).andThen
          fun effect world =>
            match effect with
            | .kept => rewriteAttributes names (attributes, edited) world
            | .replaced value => rewriteAttributes names (setAttr attributes name value, true) world
            | .removed => rewriteAttributes names (setAttr attributes name .none, true) world

/-- The node itself when none of its children was edited, else a new one. -/
def rewriteChildren (visitorKeys : VisitorKeyMap) (world : World σ) :
    Rewritten σ (AstValue × Bool) :=
  match node with
  | .tuple items =>
      (rewriteItems rewriteNode place node items.zipIdx world).andThen
        fun (items, edited) world => .done (if edited then .tuple items else node, edited) world
  | .node _ kind attributes =>
      (rewriteAttributes rewriteNode place node (visitorKeys kind) (attributes, false)
        world).andThen fun (attributes, edited) world =>
          if edited then
            .done (.node world.fresh kind attributes, true) { world with fresh := world.fresh + 1 }
          else .done (node, false) world
  | _ => .done (node, false) world

end Children

/-- Leave a node, given whether it is a replacement and whether a child was edited. -/
def rewriteLeave (visitor : Visitor σ) (place : Place) (replaced : Bool)
    (rewritten : AstValue × Bool) (world : World σ) : Rewritten σ Effect :=
  match callVisitor visitor true (place.args rewritten.1) world with
  | .error error => .raised error world
  | .ok (result, world) =>
      match result.answer with
      | .edit value => .done (if value.isRemove then .removed else .replaced value) world
      | _ => .done (if replaced || rewritten.2 then .replaced rewritten.1 else .kept) world

def rewriteNode (visitorKeys : VisitorKeyMap) (visitor : Visitor σ) :
    ℕ → Place → AstValue → World σ → Rewritten σ Effect
  | 0, _, _, _ => .exhausted
  | fuel + 1, place, node, world =>
      let descend (node : AstValue) (replaced : Bool) (world : World σ) : Rewritten σ Effect :=
        (rewriteChildren (rewriteNode visitorKeys visitor fuel) place node visitorKeys
          world).andThen (rewriteLeave visitor place replaced)
      match callVisitor visitor false (place.args node) world with
      | .error error => .raised error world
      | .ok (result, world) =>
          match result.answer with
          | .skip => .done .kept world
          | .edit value =>
              if value.isRemove then .done .removed world
              else if value.isNode then descend value true world
              else .done (.replaced value) world
          | _ => descend node false world

/-- The tree that the recursion returns, or the error that it raises. -/
def Rewrites (visitorKeys : VisitorKeyMap) (visitor : Visitor σ) (root : AstValue)
    (world : World σ) (result : Except VisitError AstValue) (world' : World σ) : Prop :=
  ∃ fuel, match rewriteNode visitorKeys visitor fuel .root root world with
    | .exhausted => False
    | .raised error world'' => result = .error error ∧ world' = world''
    | .done .kept world'' => result = .ok root ∧ world' = world''
    | .done (.replaced value) world'' => result = .ok value ∧ world' = world''
    | .done .removed world'' => result = .ok .none ∧ world' = world''

/-! ## Edits of the children -/

/-- The edits that the loop records for a node. -/
def Represents (key : Option Key) : Effect → List Edit → Prop
  | .kept, edits => edits = []
  | .replaced value, edits => ¬value.isRemove ∧
      ∃ earlier, edits = earlier ++ [(key, value)] ∧
        ∀ edit ∈ earlier, edit.1 = key ∧ ¬edit.2.isRemove
  | .removed, edits => ∃ earlier value, value.isRemove ∧ edits = earlier ++ [(key, value)] ∧
      ∀ edit ∈ earlier, edit.1 = key ∧ ¬edit.2.isRemove

theorem Represents.isEmpty {key : Option Key} {effect : Effect} {edits : List Edit}
    (h : Represents key effect edits) : edits.isEmpty = !effect.isEdit := by
  cases effect with
  | kept =>
      rw [show edits = [] from h]
      rfl
  | replaced value =>
      obtain ⟨-, earlier, rfl, -⟩ := h
      simp [Effect.isEdit]
  | removed =>
      obtain ⟨earlier, value, -, rfl, -⟩ := h
      simp [Effect.isEdit]

section Items

variable {front tail : List AstValue} {item : AstValue} {offset : ℕ} {edits : List Edit}

theorem editItem_replace {value : AstValue} (h : ¬value.isRemove) :
    editItem (front ++ item :: tail, offset) (some (.index (front.length + offset)), value) =
      (front ++ value :: tail, offset) := by
  simp [editItem, h]

theorem editItem_remove {value : AstValue} (h : value.isRemove) :
    editItem (front ++ item :: tail, offset) (some (.index (front.length + offset)), value) =
      (front ++ tail, offset + 1) := by
  simp [editItem, h, List.eraseIdx_append]

variable (tail item) in
theorem foldl_editItem_replace
    (h : ∀ edit ∈ edits, edit.1 = some (.index (front.length + offset)) ∧ ¬edit.2.isRemove) :
    ∃ value, edits.foldl editItem (front ++ item :: tail, offset) =
      (front ++ value :: tail, offset) := by
  induction edits generalizing item with
  | nil => exact ⟨item, rfl⟩
  | cons edit edits ih =>
      obtain ⟨⟨hkey, hvalue⟩, hrest⟩ := List.forall_mem_cons.mp h
      obtain ⟨key, value⟩ := edit
      cases hkey
      rw [List.foldl_cons, editItem_replace hvalue]
      exact ih value hrest

variable (tail item) in
/-- The edits of one item put in its place what becomes of it. -/
theorem foldl_editItem {effect : Effect}
    (h : Represents (some (.index (front.length + offset))) effect edits) :
    ∃ offset', edits.foldl editItem (front ++ item :: tail, offset) =
        ((front ++ effect.items item) ++ tail, offset') ∧
      (front ++ effect.items item).length + offset' = front.length + offset + 1 := by
  cases effect with
  | kept =>
      rw [show edits = [] from h]
      refine ⟨offset, by simp [Effect.items], ?_⟩
      simp only [Effect.items, List.length_append, List.length_cons, List.length_nil]
      omega
  | replaced value =>
      obtain ⟨hvalue, earlier, rfl, hearlier⟩ := h
      obtain ⟨last, hlast⟩ := foldl_editItem_replace tail item hearlier
      refine ⟨offset, ?_, ?_⟩
      · rw [List.foldl_append, hlast, List.foldl_cons, editItem_replace hvalue]
        simp [Effect.items]
      · simp only [Effect.items, List.length_append, List.length_cons, List.length_nil]
        omega
  | removed =>
      obtain ⟨earlier, value, hvalue, rfl, hearlier⟩ := h
      obtain ⟨last, hlast⟩ := foldl_editItem_replace tail item hearlier
      refine ⟨offset + 1, ?_, ?_⟩
      · rw [List.foldl_append, hlast, List.foldl_cons, editItem_remove hvalue]
        simp [Effect.items]
      · simp only [Effect.items, List.append_nil]
        omega

end Items

section Attributes

variable {attributes : List (String × AstValue)} {name : String} {edits later : List Edit}

theorem lookup_of_forall_ne {α β : Type} [BEq α] [LawfulBEq α] {key : α} {pairs : List (α × β)}
    (h : ∀ pair ∈ pairs, pair.1 ≠ key) : pairs.lookup key = none := by
  rw [List.lookup_eq_none_iff]
  intro pair hpair
  have hne := h pair hpair
  simpa [bne_iff_ne] using hne.symm

/-- The last edit of an attribute gives its value. -/
theorem editAttributes_append {value : AstValue}
    (h : ∀ edit ∈ later, edit.1 = some (.name name)) :
    editAttributes attributes (edits ++ (later ++ [(some (.name name), value)])) =
      setAttr (editAttributes attributes edits) name value := by
  rw [setAttr, editAttributes, editAttributes, List.map_map]
  apply List.map_congr_left
  rintro ⟨name', value'⟩ -
  by_cases hname : name' = name
  · subst hname
    simp
  · have hlater : (later.reverse ++ edits.reverse).lookup (some (.name name')) =
        edits.reverse.lookup (some (.name name')) := by
      rw [List.lookup_append, lookup_of_forall_ne, Option.none_or]
      intro edit hedit
      rw [h edit (List.mem_reverse.mp hedit)]
      simpa using fun h => hname h.symm
    have hne : (some (Key.name name') == some (Key.name name)) = false := by
      simpa using hname
    simp [List.lookup_cons, hne, hlater, hname]

end Attributes

/-! ## The loop rewrites -/

/-- The recursion over frames does what rewriting does, and adds edits that stand for the
rewritten value. -/
def Tracks {α : Type} (stands : α → List Edit → Prop) (edits : List Edit) :
    Rewritten σ α → Outcome σ → Prop
  | .exhausted, outcome => outcome = .exhausted
  | .raised error world, outcome => outcome = .raised error world
  | .done value world, outcome =>
      ∃ more, stands value more ∧ outcome = .done (edits ++ more) world

section Tracks

variable {α β : Type} {stands : α → List Edit → Prop} {stands' : β → List Edit → Prop}
variable {edits : List Edit} {rewritten : Rewritten σ α} {outcome : Outcome σ}

/-- The edits that were there before count with the new ones. -/
theorem Tracks.shift {more : List Edit}
    (h : Tracks (fun value later => stands value (more ++ later)) (edits ++ more) rewritten
      outcome) : Tracks stands edits rewritten outcome := by
  cases rewritten with
  | exhausted => exact h
  | raised error world => exact h
  | done value world =>
      obtain ⟨later, hstands, houtcome⟩ := h
      exact ⟨more ++ later, hstands, by rw [houtcome, List.append_assoc]⟩

theorem Tracks.andThen {rest : α → World σ → Rewritten σ β}
    {restOutcome : List Edit → World σ → Outcome σ} (h : Tracks stands edits rewritten outcome)
    (hrest : ∀ value more world, stands value more →
      Tracks (fun value' later => stands' value' (more ++ later)) (edits ++ more)
        (rest value world) (restOutcome (edits ++ more) world)) :
    Tracks stands' edits (rewritten.andThen rest) (outcome.andThen restOutcome) := by
  cases rewritten with
  | exhausted =>
      rw [show outcome = .exhausted from h]
      rfl
  | raised error world =>
      rw [show outcome = .raised error world from h]
      rfl
  | done value world =>
      obtain ⟨more, hstands, rfl⟩ := h
      exact (hrest value more world hstands).shift

theorem Tracks.map {f : α → β} (h : Tracks stands edits rewritten outcome)
    (hf : ∀ value more, stands value more → stands' (f value) more) :
    Tracks stands' edits (rewritten.andThen fun value world => .done (f value) world)
      outcome := by
  cases rewritten with
  | exhausted => exact h
  | raised error world => exact h
  | done value world =>
      obtain ⟨more, hstands, houtcome⟩ := h
      exact ⟨more, hf value more hstands, houtcome⟩

theorem Tracks.done {value : α} {world : World σ} (h : stands value []) :
    Tracks stands edits (.done value world) (.done edits world) :=
  ⟨[], h, by rw [List.append_nil]⟩

end Tracks

/-- The edits stand for what becomes of the node, and only items of a list are removed. -/
def Recorded (place : Place) (effect : Effect) (edits : List Edit) : Prop :=
  Represents place.key effect edits ∧ (effect = .removed → place.parent.isTuple)

section Children

variable {rewriteNode : Place → AstValue → World σ → Rewritten σ Effect}
variable {visitNode : Place → AstValue → List Edit → World σ → Outcome σ}
variable {place : Place} {node : AstValue}

/-- Below the root the two recursions agree on every node. -/
def Agree (rewriteNode : Place → AstValue → World σ → Rewritten σ Effect)
    (visitNode : Place → AstValue → List Edit → World σ → Outcome σ) : Prop :=
  ∀ (place : Place) (node : AstValue) (edits : List Edit) (world : World σ),
    place.path ≠ [] →
      Tracks (Recorded place) edits (rewriteNode place node world)
        (visitNode place node edits world)

variable (place node) in
theorem tracks_items (h : Agree rewriteNode visitNode) {items : List AstValue}
    (rest front : List AstValue) (offset : ℕ) (childEdits : List Edit) (world : World σ)
    (hedits : childEdits.foldl editItem (items, 0) = (front ++ rest, offset)) :
    Tracks (fun rewritten more => editItems items (childEdits ++ more) = front ++ rewritten.1 ∧
        more.isEmpty = !rewritten.2) childEdits
      (rewriteItems rewriteNode place node (rest.zipIdx (front.length + offset)) world)
      (visitChildren visitNode place node
        ((rest.zipIdx (front.length + offset)).map fun (item, idx) => (.index idx, item))
        childEdits world) := by
  induction rest generalizing front offset childEdits world with
  | nil =>
      refine Tracks.done ⟨?_, rfl⟩
      rw [List.append_nil, editItems, hedits]
  | cons item rest ih =>
      rw [List.zipIdx_cons, List.map_cons, rewriteItems, visitChildren]
      by_cases hnone : item = .none
      · rw [if_pos hnone, if_pos hnone]
        have hfront : childEdits.foldl editItem (items, 0) =
            ((front ++ [item]) ++ rest, offset) := by
          rw [hedits, List.append_assoc]
          rfl
        have hlen : (front ++ [item]).length + offset = front.length + offset + 1 := by
          simp only [List.length_append, List.length_cons, List.length_nil]
          omega
        have hrest := ih (front ++ [item]) offset childEdits world hfront
        rw [hlen] at hrest
        refine hrest.map ?_
        rintro ⟨rewritten, edited⟩ more ⟨hitems, hempty⟩
        exact ⟨by rw [hitems, List.append_assoc]; rfl, hempty⟩
      · rw [if_neg hnone, if_neg hnone]
        refine (h (place.child node _) item childEdits world (by simp [Place.child])).andThen ?_
        rintro effect more world' ⟨hrepresents, -⟩
        obtain ⟨offset', hfold, hlen⟩ := foldl_editItem rest item hrepresents
        have hfront : (childEdits ++ more).foldl editItem (items, 0) =
            ((front ++ effect.items item) ++ rest, offset') := by
          rw [List.foldl_append, hedits, hfold]
        have hrest := ih (front ++ effect.items item) offset' (childEdits ++ more) world' hfront
        rw [hlen] at hrest
        refine hrest.map ?_
        rintro ⟨rewritten, edited⟩ later ⟨hitems, hempty⟩
        refine ⟨?_, ?_⟩
        · rw [← List.append_assoc, hitems, List.append_assoc]
        · have happend : (more ++ later).isEmpty = (more.isEmpty && later.isEmpty) := by
            cases more <;> simp
          rw [happend, hrepresents.isEmpty, hempty, Bool.not_or]

variable (place) in
theorem tracks_attributes (h : Agree rewriteNode visitNode)
    {attributes : List (String × AstValue)} (hnode : ¬node.isTuple) (names : List String)
    (rewritten : List (String × AstValue)) (edited : Bool) (childEdits : List Edit)
    (world : World σ) (hedits : editAttributes attributes childEdits = rewritten)
    (hempty : childEdits.isEmpty = !edited) :
    Tracks (fun rewritten more =>
        editAttributes attributes (childEdits ++ more) = rewritten.1 ∧
          (childEdits ++ more).isEmpty = !rewritten.2) childEdits
      (rewriteAttributes rewriteNode place node names (rewritten, edited) world)
      (visitChildren visitNode place node
        (names.map fun name => (.name name, node.getAttr name)) childEdits world) := by
  induction names generalizing rewritten edited childEdits world with
  | nil =>
      refine Tracks.done ⟨?_, ?_⟩
      · rw [List.append_nil, hedits]
      · rw [List.append_nil, hempty]
  | cons name names ih =>
      rw [List.map_cons, rewriteAttributes, visitChildren]
      by_cases hnone : node.getAttr name = .none
      · rw [if_pos hnone, if_pos hnone]
        exact ih rewritten edited childEdits world hedits hempty
      · rw [if_neg hnone, if_neg hnone]
        refine (h (place.child node _) _ childEdits world (by simp [Place.child])).andThen ?_
        rintro effect more world' ⟨hrepresents, hremoved⟩
        have hmore := hrepresents.isEmpty
        cases effect with
        | kept =>
            obtain rfl : more = [] := hrepresents
            simpa using ih rewritten edited childEdits world' hedits hempty
        | replaced value =>
            obtain ⟨-, earlier, rfl, hearlier⟩ := hrepresents
            have hattributes : editAttributes attributes
                (childEdits ++ (earlier ++ [(some (.name name), value)])) =
                  setAttr rewritten name value := by
              rw [editAttributes_append fun edit hedit => (hearlier edit hedit).1, hedits]
            simpa [List.append_assoc, Place.child] using
              ih (setAttr rewritten name value) true _ world' hattributes (by simp)
        | removed => exact absurd (hremoved rfl) hnode

/-- The children are rewritten, and their edits give the same node. -/
theorem visitChildren_of_rewriteChildren (h : Agree rewriteNode visitNode)
    (visitorKeys : VisitorKeyMap) (place : Place) (node : AstValue) (world : World σ) :
    match rewriteChildren rewriteNode place node visitorKeys world with
    | .exhausted =>
        visitChildren visitNode place node (node.children visitorKeys) [] world = .exhausted
    | .raised error world' =>
        visitChildren visitNode place node (node.children visitorKeys) [] world =
          .raised error world'
    | .done (node', edited) world' => ∃ childEdits world'',
        visitChildren visitNode place node (node.children visitorKeys) [] world =
            .done childEdits world'' ∧
          withEdits node childEdits world'' = (node', world') ∧
          childEdits.isEmpty = !edited := by
  cases node with
  | tuple items =>
      have hitems := tracks_items place (.tuple items) h items [] 0 [] world rfl
      rw [rewriteChildren]
      rw [List.length_nil, Nat.add_zero] at hitems
      cases hrewritten : rewriteItems rewriteNode place (.tuple items) items.zipIdx world with
      | exhausted =>
          rw [hrewritten] at hitems
          exact hitems
      | raised error world' =>
          rw [hrewritten] at hitems
          exact hitems
      | done rewritten world' =>
          rw [hrewritten] at hitems
          obtain ⟨childEdits, ⟨hedits, hempty⟩, hdone⟩ := hitems
          refine ⟨childEdits, world', hdone, ?_, hempty⟩
          rw [withEdits, hempty]
          cases hedited : rewritten.2 with
          | false => rfl
          | true =>
              rw [List.nil_append, List.nil_append] at hedits
              simp [rebuild, hedits]
  | node ref kind attributes =>
      have hunedited : editAttributes attributes [] = attributes := by simp [editAttributes]
      have hattributes := tracks_attributes place h
        (fun h : (AstValue.node ref kind attributes).isTuple => nomatch h) (visitorKeys kind)
        attributes false [] world hunedited rfl
      rw [rewriteChildren]
      cases hrewritten : rewriteAttributes rewriteNode place (.node ref kind attributes)
        (visitorKeys kind) (attributes, false) world with
      | exhausted =>
          rw [hrewritten] at hattributes
          exact hattributes
      | raised error world' =>
          rw [hrewritten] at hattributes
          exact hattributes
      | done rewritten world' =>
          rw [hrewritten] at hattributes
          obtain ⟨childEdits, ⟨hedits, hempty⟩, hdone⟩ := hattributes
          obtain ⟨attributes', edited⟩ := rewritten
          rw [List.nil_append] at hedits hempty hdone
          cases edited with
          | false => exact ⟨childEdits, world', hdone, by simp [withEdits, hempty], hempty⟩
          | true =>
              exact ⟨childEdits, world', hdone, by simp [withEdits, rebuild, hempty, hedits],
                hempty⟩
  | _ => exact ⟨[], world, rfl, rfl, rfl⟩

end Children

/-! ### Visitors that edit and skip -/

/-- No action, a node in place of the node, or `REMOVE` for an item of a list. -/
def Edits (args : VisitArgs) : Answer → Prop
  | .idle => True
  | .edit value => value.isNode ∨ value.isRemove ∧ args.parent.isTuple
  | _ => False

/-- The visitors that rewrite: on entering a node they may also skip it. -/
structure Rewriting (visitor : Visitor σ) : Prop where
  enter : ∀ kind method, (visitor.getEnterLeaveForKind kind).enter = some method →
    ∀ args state, (method args state).1.answer = .skip ∨ Edits args (method args state).1.answer
  leave : ∀ kind method, (visitor.getEnterLeaveForKind kind).leave = some method →
    ∀ args state, Edits args (method args state).1.answer

section Calls

variable {visitor : Visitor σ} {isLeaving : Bool} {args : VisitArgs} {world world' : World σ}
variable {result : AstValue}

/-- A call that succeeds is about a tuple or a node, and is answered by a method if there is
one for the node. -/
theorem callVisitor_eq_ok
    (h : callVisitor visitor isLeaving args world = .ok (result, world')) :
    (args.node.isTuple ∧ result = .none ∧ world' = world) ∨
      ∃ ref kind attributes, args.node = .node ref kind attributes ∧
        match visitor.visitFn isLeaving kind with
        | none => result = .none ∧ world' = world
        | some method => (result, world') =
            ((method args world.state).1, { world with state := (method args world.state).2 }) := by
  rw [callVisitor] at h
  cases hnode : args.node with
  | tuple items =>
      simp only [hnode, Except.ok.injEq, Prod.mk.injEq] at h
      exact Or.inl ⟨rfl, h.1.symm, h.2.symm⟩
  | node ref kind attributes =>
      refine Or.inr ⟨ref, kind, attributes, rfl, ?_⟩
      simp only [hnode] at h
      cases hmethod : visitor.visitFn isLeaving kind with
      | none =>
          simp only [hmethod, Except.ok.injEq, Prod.mk.injEq] at h
          exact ⟨h.1.symm, h.2.symm⟩
      | some method =>
          simp only [hmethod, Except.ok.injEq] at h
          exact h.symm
  | _ => simp [hnode] at h

theorem not_isRemove_of_callVisitor
    (h : callVisitor visitor isLeaving args world = .ok (result, world')) :
    ¬args.node.isRemove := by
  rcases callVisitor_eq_ok h with ⟨htuple, -, -⟩ | ⟨ref, kind, attributes, hnode, -⟩
  · cases hnode : args.node <;> simp [hnode, AstValue.isTuple, AstValue.isRemove] at htuple ⊢
  · simp [hnode, AstValue.isRemove]

theorem Rewriting.enter_answer (hvisitor : Rewriting visitor)
    (h : callVisitor visitor false args world = .ok (result, world')) :
    result.answer = .skip ∨ Edits args result.answer := by
  rcases callVisitor_eq_ok h with ⟨-, rfl, -⟩ | ⟨ref, kind, attributes, -, hmethod⟩
  · exact Or.inr trivial
  · cases henter : visitor.visitFn false kind with
    | none =>
        rw [henter] at hmethod
        obtain ⟨rfl, -⟩ := hmethod
        exact Or.inr trivial
    | some method =>
        simp only [henter, Prod.mk.injEq] at hmethod
        obtain ⟨rfl, -⟩ := hmethod
        exact hvisitor.enter kind method henter args world.state

theorem Rewriting.leave_answer (hvisitor : Rewriting visitor)
    (h : callVisitor visitor true args world = .ok (result, world')) :
    Edits args result.answer := by
  rcases callVisitor_eq_ok h with ⟨-, rfl, -⟩ | ⟨ref, kind, attributes, -, hmethod⟩
  · trivial
  · cases hleave : visitor.visitFn true kind with
    | none =>
        rw [hleave] at hmethod
        obtain ⟨rfl, -⟩ := hmethod
        trivial
    | some method =>
        simp only [hleave, Prod.mk.injEq] at hmethod
        obtain ⟨rfl, -⟩ := hmethod
        exact hvisitor.leave kind method hleave args world.state

end Calls

/-! ### Agreement -/

theorem not_isRemove_withEdits {node : AstValue} (h : ¬node.isRemove) (edits : List Edit)
    (world : World σ) : ¬(withEdits node edits world).1.isRemove := by
  rw [withEdits]
  split
  · exact h
  · cases node <;> simp_all [rebuild, AstValue.isRemove]

theorem represents_edit {key : Option Key} {value : AstValue} {earlier : List Edit}
    (h : ∀ edit ∈ earlier, edit.1 = key ∧ ¬edit.2.isRemove) :
    Represents key (if value.isRemove then .removed else .replaced value)
      (earlier ++ [(key, value)]) := by
  by_cases hvalue : value.isRemove
  · rw [if_pos hvalue]
    exact ⟨earlier, value, hvalue, rfl, h⟩
  · rw [if_neg hvalue]
    exact ⟨hvalue, earlier, rfl, h⟩

theorem Edits.isTuple {args : VisitArgs} {value : AstValue} (h : Edits args (.edit value))
    (hremove : value.isRemove) : args.parent.isTuple := by
  rcases h with hnode | ⟨-, htuple⟩
  · cases value <;> simp [AstValue.isNode, AstValue.isRemove] at hnode hremove
  · exact htuple

section Agreement

variable {visitorKeys : VisitorKeyMap} {visitor : Visitor σ} {root : AstValue}

/-- Leaving a node, where `own` are the edits that were recorded when it was entered. -/
theorem tracks_leave (hvisitor : Rewriting visitor) {place : Place} {node node' : AstValue}
    {childEdits edits own : List Edit} {replaced edited : Bool} {world world' : World σ}
    (hown : own = if replaced then [(place.key, node)] else []) (hnode : ¬node.isRemove)
    (hedits : withEdits node childEdits world = (node', world'))
    (hempty : childEdits.isEmpty = !edited) :
    Tracks (fun effect later => Recorded place effect (own ++ later)) (edits ++ own)
      (rewriteLeave visitor place replaced (node', edited) world')
      (leaveNode visitor place node childEdits (edits ++ own) world) := by
  have hearlier : ∀ edit ∈ own, edit.1 = place.key ∧ ¬edit.2.isRemove := by
    rw [hown]
    cases replaced with
    | false => simp
    | true =>
        intro edit hedit
        rw [if_pos rfl, List.mem_singleton] at hedit
        subst hedit
        exact ⟨rfl, hnode⟩
  rw [rewriteLeave, leaveNode, hedits]
  dsimp only
  cases hcall : callVisitor visitor true (place.args node') world' with
  | error error => rfl
  | ok called =>
      obtain ⟨result, world''⟩ := called
      have hanswer := hvisitor.leave_answer hcall
      dsimp only
      cases hresult : result.answer with
      | brk => exact (hresult ▸ hanswer).elim
      | skip => exact (hresult ▸ hanswer).elim
      | edit value =>
          rw [hresult] at hanswer
          refine ⟨[(place.key, value)], ⟨represents_edit hearlier, ?_⟩, rfl⟩
          intro hremoved
          refine hanswer.isTuple ?_
          by_contra hvalue
          rw [if_neg hvalue] at hremoved
          cases hremoved
      | idle =>
          have hnode' : ¬node'.isRemove := by
            have hremove := not_isRemove_withEdits hnode childEdits world
            rw [hedits] at hremove
            exact hremove
          simp only
          rw [hempty]
          cases edited with
          | true =>
              rw [Bool.or_true, if_pos rfl, Bool.not_true, if_neg Bool.false_ne_true]
              refine ⟨[(place.key, node')], ⟨⟨hnode', own, rfl, hearlier⟩, ?_⟩, rfl⟩
              intro hremoved
              cases hremoved
          | false =>
              have hsame : node' = node := by
                have hfst := congrArg Prod.fst hedits
                simpa [withEdits, hempty] using hfst.symm
              subst hsame
              rw [Bool.or_false, Bool.not_false, if_pos rfl]
              refine ⟨[], ⟨?_, ?_⟩, by rw [List.append_nil]⟩
              · rw [List.append_nil, hown]
                cases replaced with
                | false => exact (rfl : ([] : List Edit) = [])
                | true => exact ⟨hnode, [], rfl, by simp⟩
              · intro hremoved
                cases replaced <;> cases hremoved

variable (visitorKeys) in
theorem tracks_node (hvisitor : Rewriting visitor) : ∀ (fuel : ℕ) (place : Place)
    (node : AstValue) (edits : List Edit) (world : World σ),
    (place.path = [] → ∀ result world',
      callVisitor visitor false (place.args node) world = .ok (result, world') →
      Edits (place.args node) result.answer ∧ ¬place.parent.isTuple) →
    Tracks (Recorded place) edits (rewriteNode visitorKeys visitor fuel place node world)
      (visitNode visitorKeys visitor fuel place node edits world) := by
  intro fuel
  induction fuel with
  | zero =>
      intro place node edits world hroot
      rfl
  | succ fuel ih =>
      intro place node edits world hroot
      have hagree : Agree (rewriteNode visitorKeys visitor fuel)
          (visitNode visitorKeys visitor fuel) := by
        intro place node edits world hpath
        exact ih place node edits world fun h => absurd h hpath
      have hdescend : ∀ (node : AstValue) (replaced : Bool) (own : List Edit) (world : World σ),
          own = (if replaced then [(place.key, node)] else []) → ¬node.isRemove →
          Tracks (fun effect later => Recorded place effect (own ++ later)) (edits ++ own)
            ((rewriteChildren (rewriteNode visitorKeys visitor fuel) place node visitorKeys
              world).andThen (rewriteLeave visitor place replaced))
            ((visitChildren (visitNode visitorKeys visitor fuel) place node
              (node.children visitorKeys) [] world).andThen
              fun childEdits world => leaveNode visitor place node childEdits
                (edits ++ own) world) := by
        intro node replaced own world hown hnode
        have hchildren := visitChildren_of_rewriteChildren hagree visitorKeys place node world
        cases hrewritten : rewriteChildren (rewriteNode visitorKeys visitor fuel) place node
          visitorKeys world with
        | exhausted =>
            rw [hrewritten] at hchildren
            rw [show visitChildren _ place node _ [] world = _ from hchildren]
            rfl
        | raised error world' =>
            rw [hrewritten] at hchildren
            rw [show visitChildren _ place node _ [] world = _ from hchildren]
            rfl
        | done rewritten world' =>
            obtain ⟨node', edited⟩ := rewritten
            rw [hrewritten] at hchildren
            obtain ⟨childEdits, world'', hdone, hedits, hempty⟩ := hchildren
            rw [hdone]
            exact tracks_leave hvisitor hown hnode hedits hempty
      rw [rewriteNode, visitNode]
      cases hcall : callVisitor visitor false (place.args node) world with
      | error error => rfl
      | ok called =>
          obtain ⟨result, world'⟩ := called
          have hnode : ¬node.isRemove := not_isRemove_of_callVisitor hcall
          have hanswer := hvisitor.enter_answer hcall
          have hpath : result.answer = .skip ∨ (∃ value, result.answer = .edit value ∧
              ¬value.isNode) → place.path ≠ [] := by
            rintro hresult hpath
            obtain ⟨hedit, htuple⟩ := hroot hpath _ _ hcall
            rcases hresult with hskip | ⟨value, hvalue, hnot⟩
            · rw [hskip] at hedit
              exact hedit
            · rw [hvalue] at hedit
              rcases hedit with hisNode | ⟨-, hparent⟩
              · exact hnot hisNode
              · exact htuple hparent
          have hpass : ∀ (edits : List Edit) (world : World σ), place.path ≠ [] →
              passOver place edits world = .done edits world := by
            intro edits world hne
            rw [passOver, if_neg (by simpa using hne)]
          simp only
          cases hresult : result.answer with
          | brk => simp [hresult, Edits] at hanswer
          | skip =>
              simp only
              rw [hpass _ _ (hpath (Or.inl hresult))]
              exact Tracks.done ⟨rfl, fun h => by cases h⟩
          | edit value =>
              rw [hresult] at hanswer hpath
              have hedit : Edits (place.args node) (.edit value) :=
                hanswer.resolve_left fun h => by cases h
              simp only
              by_cases hremove : value.isRemove
              · have hnot : ¬value.isNode := by
                  cases value <;> simp [AstValue.isNode, AstValue.isRemove] at hremove ⊢
                rw [if_pos hremove, if_neg hnot, hpass _ _ (hpath (Or.inr ⟨value, rfl, hnot⟩))]
                exact ⟨[(place.key, value)], ⟨⟨[], value, hremove, rfl, by simp⟩,
                  fun _ => hedit.isTuple hremove⟩, rfl⟩
              · have hisNode : value.isNode :=
                  hedit.resolve_right fun h => hremove h.1
                rw [if_neg hremove, if_pos hisNode, if_pos hisNode]
                exact (hdescend value true [(place.key, value)] world' rfl hremove).shift
          | idle =>
              have htracks := hdescend node false [] world' rfl hnode
              simpa using htracks

/-- The visitor skips the root when it enters it. -/
def SkipsRoot (visitor : Visitor σ) (root : AstValue) (state : σ) : Prop :=
  ∃ ref kind attributes method, root = .node ref kind attributes ∧
    (visitor.getEnterLeaveForKind kind).enter = some method ∧
      (method (Place.root.args root) state).1.answer = .skip

theorem visits_iff_rewrites (hvisitor : Rewriting visitor) (hroot : root.isNode)
    {world world' : World σ} {result : Except VisitError AstValue}
    (hskip : ¬SkipsRoot visitor root world.state) :
    Visits visitorKeys visitor root world result world' ↔
      Rewrites visitorKeys visitor root world result world' := by
  have hanswer : ∀ result world', callVisitor visitor false (Place.root.args root) world =
      .ok (result, world') → Edits (Place.root.args root) result.answer ∧
        ¬Place.root.parent.isTuple := by
    intro result world' hcall
    refine ⟨(hvisitor.enter_answer hcall).resolve_left fun hresult => ?_, fun h => by cases h⟩
    rcases callVisitor_eq_ok hcall with ⟨htuple, -, -⟩ | ⟨ref, kind, attributes, hnode, hmethod⟩
    · cases root <;> simp [Place.args, AstValue.isTuple, AstValue.isNode] at htuple hroot
    · cases henter : visitor.visitFn false kind with
      | none =>
          rw [henter] at hmethod
          obtain ⟨rfl, -⟩ := hmethod
          cases hresult
      | some method =>
          simp only [henter, Prod.mk.injEq] at hmethod
          obtain ⟨rfl, -⟩ := hmethod
          exact hskip ⟨ref, kind, attributes, method, hnode, henter, hresult⟩
  rw [visits_iff hroot, Rewrites]
  refine exists_congr fun fuel => ?_
  have htracks := tracks_node visitorKeys hvisitor fuel .root root [] world
    fun _ => hanswer
  cases hrewritten : rewriteNode visitorKeys visitor fuel .root root world with
  | exhausted =>
      rw [hrewritten] at htracks
      rw [show visitNode _ _ _ _ _ _ _ = _ from htracks]
      simp [Outcome.result]
  | raised error world'' =>
      rw [hrewritten] at htracks
      rw [show visitNode _ _ _ _ _ _ _ = _ from htracks]
      simp [Outcome.result, eq_comm]
  | done effect world'' =>
      rw [hrewritten] at htracks
      obtain ⟨edits, ⟨hedits, hremoved⟩, hdone⟩ := htracks
      rw [hdone, List.nil_append]
      cases effect with
      | kept =>
          obtain rfl : edits = [] := hedits
          simp [Outcome.result, resultOf, eq_comm]
      | replaced value =>
          obtain ⟨-, earlier, rfl, -⟩ := hedits
          simp [Outcome.result, resultOf, eq_comm]
      | removed => cases hremoved rfl

end Agreement

/-! ## Nothing edited -/

/-- No method asked for an edit. -/
def Unedited (events : List Event) : Prop :=
  ∀ event ∈ events, ∀ value, event.result.answer ≠ .edit value

section Unedited

variable {visitorKeys : VisitorKeyMap} {visitor : Visitor σ}

theorem visitFn_recording {isLeaving : Bool} {kind : String} :
    visitor.recording.visitFn isLeaving kind =
      (visitor.visitFn isLeaving kind).map (VisitMethod.recording isLeaving) := by
  cases isLeaving <;> rfl

theorem unedited_of_call {isLeaving : Bool} {args : VisitArgs} {result : AstValue}
    {world world' : World (σ × List Event)}
    (hcall : callVisitor visitor.recording isLeaving args world = .ok (result, world'))
    (h : Unedited world'.state.2) :
    Unedited world.state.2 ∧ ∀ value, result.answer ≠ .edit value := by
  rcases callVisitor_eq_ok hcall with ⟨-, rfl, rfl⟩ | ⟨ref, kind, attributes, -, hmethod⟩
  · exact ⟨h, fun value h => nomatch h⟩
  · rw [visitFn_recording] at hmethod
    cases hvisitFn : visitor.visitFn isLeaving kind with
    | none =>
        rw [hvisitFn] at hmethod
        obtain ⟨rfl, rfl⟩ := hmethod
        exact ⟨h, fun value h => nomatch h⟩
    | some method =>
        simp only [hvisitFn, Option.map_some, Prod.mk.injEq] at hmethod
        obtain ⟨rfl, rfl⟩ := hmethod
        refine ⟨fun event hevent => h event (List.mem_append_left _ hevent), ?_⟩
        exact h _ (List.mem_append_right _ (List.mem_singleton.mpr rfl))

variable {rewriteNode : Place → AstValue → World (σ × List Event) →
  Rewritten (σ × List Event) Effect}
variable {place : Place} {node : AstValue} {world world' : World (σ × List Event)}

/-- Without an edit a node is kept. -/
def KeepsUnedited (rewriteNode : Place → AstValue → World (σ × List Event) →
    Rewritten (σ × List Event) Effect) : Prop :=
  ∀ (place : Place) (node : AstValue) (world : World (σ × List Event)) (effect : Effect)
    (world' : World (σ × List Event)), rewriteNode place node world = .done effect world' →
      Unedited world'.state.2 → Unedited world.state.2 ∧ effect = .kept

theorem Rewritten.andThen_eq_done {α β : Type} {rewritten : Rewritten σ α}
    {rest : α → World σ → Rewritten σ β} {value : β} {world' : World σ} :
    rewritten.andThen rest = .done value world' ↔
      ∃ first world, rewritten = .done first world ∧ rest first world = .done value world' := by
  cases rewritten <;> simp [Rewritten.andThen]

theorem items_kept (h : KeepsUnedited rewriteNode) {items : List (AstValue × ℕ)}
    {rewritten : List AstValue × Bool}
    (hdone : rewriteItems rewriteNode place node items world = .done rewritten world')
    (hunedited : Unedited world'.state.2) :
    Unedited world.state.2 ∧ rewritten.2 = false := by
  induction items generalizing world rewritten with
  | nil =>
      cases hdone
      exact ⟨hunedited, rfl⟩
  | cons item items ih =>
      obtain ⟨item, idx⟩ := item
      rw [rewriteItems] at hdone
      split at hdone
      · obtain ⟨⟨rest, edited⟩, between, hrest, hvalue⟩ := Rewritten.andThen_eq_done.mp hdone
        cases hvalue
        obtain ⟨hworld, hedited⟩ := ih hrest
        exact ⟨hworld, hedited⟩
      · obtain ⟨effect, between, hitem, hdone⟩ := Rewritten.andThen_eq_done.mp hdone
        obtain ⟨⟨rest, edited⟩, between', hrest, hvalue⟩ := Rewritten.andThen_eq_done.mp hdone
        cases hvalue
        obtain ⟨hbetween, hedited⟩ := ih hrest
        obtain ⟨hworld, rfl⟩ := h _ _ _ _ _ hitem hbetween
        exact ⟨hworld, hedited⟩

theorem attributes_kept (h : KeepsUnedited rewriteNode) {names : List String}
    {before rewritten : List (String × AstValue) × Bool}
    (hdone : rewriteAttributes rewriteNode place node names before world = .done rewritten world')
    (hunedited : Unedited world'.state.2) :
    Unedited world.state.2 ∧ rewritten = before := by
  induction names generalizing world before with
  | nil =>
      cases hdone
      exact ⟨hunedited, rfl⟩
  | cons name names ih =>
      obtain ⟨attributes, edited⟩ := before
      rw [rewriteAttributes] at hdone
      split at hdone
      · exact ih hdone
      · obtain ⟨effect, between, hattribute, hdone⟩ := Rewritten.andThen_eq_done.mp hdone
        cases effect with
        | kept =>
            obtain ⟨hbetween, hsame⟩ := ih hdone
            exact ⟨(h _ _ _ _ _ hattribute hbetween).1, hsame⟩
        | replaced value =>
            obtain ⟨hbetween, -⟩ := ih hdone
            nomatch (h _ _ _ _ _ hattribute hbetween).2
        | removed =>
            obtain ⟨hbetween, -⟩ := ih hdone
            nomatch (h _ _ _ _ _ hattribute hbetween).2

theorem children_kept (h : KeepsUnedited rewriteNode) {rewritten : AstValue × Bool}
    (hdone : rewriteChildren rewriteNode place node visitorKeys world = .done rewritten world')
    (hunedited : Unedited world'.state.2) :
    Unedited world.state.2 ∧ rewritten.2 = false := by
  cases node with
  | tuple items =>
      obtain ⟨⟨items', edited⟩, between, hitems, hvalue⟩ := Rewritten.andThen_eq_done.mp hdone
      cases hvalue
      exact items_kept h hitems hunedited
  | node ref kind attributes =>
      obtain ⟨⟨attributes', edited⟩, between, hattributes, hvalue⟩ :=
        Rewritten.andThen_eq_done.mp hdone
      cases edited with
      | false =>
          cases hvalue
          exact ⟨(attributes_kept h hattributes hunedited).1, rfl⟩
      | true =>
          cases hvalue
          nomatch (attributes_kept h hattributes hunedited).2
  | _ =>
      cases hdone
      exact ⟨hunedited, rfl⟩

end Unedited

section Kept

variable {visitorKeys : VisitorKeyMap} {visitor : Visitor σ}

theorem node_kept : ∀ fuel, KeepsUnedited (rewriteNode visitorKeys visitor.recording fuel) := by
  intro fuel
  induction fuel with
  | zero =>
      intro place node world effect world' hdone
      nomatch hdone
  | succ fuel ih =>
      intro place node world effect world' hdone hunedited
      have hdescend : ∀ {node : AstValue} {replaced : Bool} {world : World (σ × List Event)},
          ((rewriteChildren (rewriteNode visitorKeys visitor.recording fuel) place node
            visitorKeys world).andThen (rewriteLeave visitor.recording place replaced)) =
            .done effect world' →
          Unedited world.state.2 ∧ (replaced = false → effect = .kept) := by
        intro node replaced world hdone
        obtain ⟨⟨node', edited⟩, between, hchildren, hleave⟩ := Rewritten.andThen_eq_done.mp hdone
        rw [rewriteLeave] at hleave
        cases hcall : callVisitor visitor.recording true (place.args node') between with
        | error error => simp [hcall] at hleave
        | ok called =>
            obtain ⟨result, world''⟩ := called
            simp only [hcall] at hleave
            have hworld : world'' = world' := by
              split at hleave <;> cases hleave <;> rfl
            obtain ⟨hbetween, hresult⟩ := unedited_of_call hcall (hworld ▸ hunedited)
            obtain ⟨hworld, hedited⟩ := children_kept ih hchildren hbetween
            obtain rfl : edited = false := hedited
            refine ⟨hworld, ?_⟩
            split at hleave
            · rename_i value hvalue
              exact absurd hvalue (hresult value)
            · rintro rfl
              cases hleave
              rfl
      rw [rewriteNode] at hdone
      cases hcall : callVisitor visitor.recording false (place.args node) world with
      | error error => simp [hcall] at hdone
      | ok called =>
          obtain ⟨result, between⟩ := called
          simp only [hcall] at hdone
          split at hdone
          · cases hdone
            exact ⟨(unedited_of_call hcall hunedited).1, rfl⟩
          · rename_i value hvalue
            have hbetween : Unedited between.state.2 := by
              split at hdone
              · cases hdone
                exact hunedited
              · split at hdone
                · exact (hdescend hdone).1
                · cases hdone
                  exact hunedited
            exact absurd hvalue ((unedited_of_call hcall hbetween).2 value)
          · obtain ⟨hbetween, hkept⟩ := hdescend hdone
            exact ⟨(unedited_of_call hcall hbetween).1, hkept rfl⟩

end Kept

/-! ## The visitor as a whole -/

section Whole

variable {visitorKeys : VisitorKeyMap} {visitor : Visitor σ} {root : AstValue} {state : σ}
variable {fresh : ℕ}

/-- `visit` computes the recursion: it returns the same tree after the same calls with the
same arguments and answers, or raises the same error, and it returns the root itself when no
method asked for an edit. -/
def ImplementsRewriting (visitorKeys : VisitorKeyMap) (visitor : Visitor σ) (root : AstValue)
    (fresh : ℕ) (state : σ) : Prop :=
  ∀ (result : Except VisitError AstValue) (world' : World (σ × List Event)),
    (Visits visitorKeys visitor.recording root ⟨fresh, state, []⟩ result world' ↔
      Rewrites visitorKeys visitor.recording root ⟨fresh, state, []⟩ result world') ∧
    (Visits visitorKeys visitor.recording root ⟨fresh, state, []⟩ result world' →
      Unedited world'.state.2 → ∀ value, result = .ok value → value = root)

theorem Rewriting.recording (h : Rewriting visitor) : Rewriting visitor.recording := by
  constructor
  · intro kind method hmethod args state
    obtain ⟨original, horiginal, rfl⟩ := Option.map_eq_some_iff.mp hmethod
    exact h.enter kind original horiginal args state.1
  · intro kind method hmethod args state
    obtain ⟨original, horiginal, rfl⟩ := Option.map_eq_some_iff.mp hmethod
    exact h.leave kind original horiginal args state.1

theorem skipsRoot_recording {events : List Event} :
    SkipsRoot visitor.recording root (state, events) ↔ SkipsRoot visitor root state := by
  constructor
  · rintro ⟨ref, kind, attributes, method, hroot, hmethod, hskip⟩
    obtain ⟨original, horiginal, rfl⟩ := Option.map_eq_some_iff.mp hmethod
    exact ⟨ref, kind, attributes, original, hroot, horiginal, hskip⟩
  · rintro ⟨ref, kind, attributes, method, hroot, hmethod, hskip⟩
    exact ⟨ref, kind, attributes, _, hroot, Option.map_eq_some_iff.mpr ⟨method, hmethod, rfl⟩,
      hskip⟩

theorem rewrites_unedited {world' : World (σ × List Event)} {result : Except VisitError AstValue}
    {value : AstValue} {world : World (σ × List Event)}
    (h : Rewrites visitorKeys visitor.recording root world result world')
    (hunedited : Unedited world'.state.2) (hvalue : result = .ok value) : value = root := by
  obtain ⟨fuel, hfuel⟩ := h
  cases hrewritten : rewriteNode visitorKeys visitor.recording fuel .root root world with
  | exhausted => simp [hrewritten] at hfuel
  | raised error world'' =>
      rw [hrewritten] at hfuel
      rw [hvalue] at hfuel
      nomatch hfuel.1
  | done effect world'' =>
      rw [hrewritten] at hfuel
      have hworld : world' = world'' := by
        cases effect <;> exact hfuel.2
      obtain ⟨-, rfl⟩ := node_kept fuel _ _ _ _ _ hrewritten (hworld ▸ hunedited)
      have hresult := hvalue.symm.trans hfuel.1
      injection hresult

/-- A root that is skipped makes the loop pop the empty path. -/
theorem not_implementsRewriting (hroot : root.isNode) (h : SkipsRoot visitor root state) :
    ¬ImplementsRewriting visitorKeys visitor root fresh state := by
  intro himplements
  have hrecording : SkipsRoot visitor.recording root (state, []) := skipsRoot_recording.mpr h
  clear h
  obtain ⟨ref, kind, attributes, method, rfl, hmethod, hskip⟩ := hrecording
  have hcall : callVisitor visitor.recording false
      (Place.root.args (.node ref kind attributes)) ⟨fresh, state, []⟩ =
        .ok ((method (Place.root.args (.node ref kind attributes)) (state, [])).1,
          ⟨fresh, (method (Place.root.args (.node ref kind attributes)) (state, [])).2⟩) := by
    have hvisitFn : visitor.recording.visitFn false kind = some method := hmethod
    simp [callVisitor, Place.args, hvisitFn]
  have hvisits : Visits visitorKeys visitor.recording (.node ref kind attributes)
      ⟨fresh, state, []⟩ (.error .indexError)
      ⟨fresh, (method (Place.root.args (.node ref kind attributes)) (state, [])).2⟩ := by
    rw [visits_iff hroot]
    refine ⟨1, ?_⟩
    rw [visitNode, hcall]
    simp only [hskip]
    rfl
  obtain ⟨fuel, hfuel⟩ := (himplements _ _).1.mp hvisits
  cases fuel with
  | zero => exact hfuel
  | succ fuel =>
      rw [rewriteNode, hcall] at hfuel
      simp only [hskip] at hfuel
      cases hfuel.1

/-- `visit` is the recursive rewriting exactly when the root is not skipped. -/
theorem implementsRewriting_iff (hvisitor : Rewriting visitor) (hroot : root.isNode) :
    ImplementsRewriting visitorKeys visitor root fresh state ↔ ¬SkipsRoot visitor root state := by
  constructor
  · intro himplements hskip
    exact not_implementsRewriting hroot hskip himplements
  · intro hskip result world'
    have hiff : Visits visitorKeys visitor.recording root ⟨fresh, state, []⟩ result world' ↔
        Rewrites visitorKeys visitor.recording root ⟨fresh, state, []⟩ result world' :=
      visits_iff_rewrites hvisitor.recording hroot fun h => hskip (skipsRoot_recording.mp h)
    exact ⟨hiff, fun hvisits hunedited value hvalue =>
      rewrites_unedited (hiff.mp hvisits) hunedited hvalue⟩

end Whole

/-- A visitor that gives every name another spelling. -/
def respelling : Visitor Unit :=
  ({ enterKind := fun kind =>
      if kind = "name" then some fun _ _ => (.node 7 "name" [("value", .other "b")], ()) else none
     : VisitorMethods Unit }).visitor

def scalarDocument : AstValue :=
  .node 0 "document" [("definitions", .tuple [.node 1 "scalar_type_definition"
    [("name", .node 2 "name" [("value", .other "a")])]])]

theorem rewriting_respelling : Rewriting respelling := by
  constructor
  · intro kind method hmethod args state
    simp only [respelling, VisitorMethods.visitor, Option.or_none] at hmethod
    split at hmethod
    · cases hmethod
      exact Or.inr (Or.inl rfl)
    · nomatch hmethod
  · intro kind method hmethod
    nomatch hmethod

theorem implementsRewriting_respelling :
    ImplementsRewriting queryDocumentKeys respelling scalarDocument 8 () := by
  refine (implementsRewriting_iff rewriting_respelling rfl).mpr ?_
  rintro ⟨ref, kind, attributes, method, hroot, hmethod, -⟩
  cases hroot
  nomatch hmethod

/-- A visitor that skips every node, and so the root. -/
def skipping : Visitor Unit :=
  ({ enter := some fun _ _ => (.action .skip, ()) : VisitorMethods Unit }).visitor

theorem skipped_root_not_implementsRewriting :
    ¬∀ (visitorKeys : VisitorKeyMap) (visitor : Visitor Unit) (root : AstValue) (fresh : ℕ),
      Rewriting visitor → root.isNode →
        ImplementsRewriting visitorKeys visitor root fresh () := by
  intro h
  have hvisitor : Rewriting skipping := by
    constructor
    · intro kind method hmethod args state
      cases hmethod
      exact Or.inl rfl
    · intro kind method hmethod
      nomatch hmethod
  have hskip : SkipsRoot skipping scalarDocument () := ⟨0, "document", _, _, rfl, rfl, rfl⟩
  exact not_implementsRewriting rfl hskip (h queryDocumentKeys skipping scalarDocument 8
    hvisitor rfl)

end GraphqlCore.Language.Visiting
