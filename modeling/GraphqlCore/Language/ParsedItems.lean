import GraphqlCore.Language.NodeTrees

/-!
# Reading the items of a tree

What a parser that returns has read: the tokens that it passes by are spelled by items, which
are known from what it returns.  `Scans` states this, with a rule for each way to put parsers
together; a node is the items that were read since its start.
-/

namespace GraphqlCore.Language

open ParserState

/-! ## Passing by tokens -/

/-- The tokens that are passed by from the first state to the second. -/
structure Advances (s : ParserState) (tokens : List Token) (t : ParserState) : Prop where
  proper : t.Proper
  options : t.options = s.options
  failure : t.failure = s.failure
  passed : s.token :: s.tokens = tokens ++ t.token :: t.tokens
  last : t.lastToken = tokens.getLast?.getD s.lastToken

section Advances

variable {s t u : ParserState} {front tokens : List Token} {first : Token}

theorem Advances.refl (h : s.Proper) : Advances s [] s := ⟨h, rfl, rfl, rfl, rfl⟩

theorem Advances.trans (h : Advances s front t) (h' : Advances t tokens u) :
    Advances s (front ++ tokens) u where
  proper := h'.proper
  options := h'.options.trans h.options
  failure := h'.failure.trans h.failure
  passed := by rw [h.passed, h'.passed, List.append_assoc]
  last := by
    rw [h'.last, h.last, List.getLast?_append]
    cases tokens.getLast? <;> rfl

theorem Advances.head?_eq (h : Advances s tokens t) (hne : tokens ≠ []) :
    tokens.head? = some s.token := by
  obtain ⟨first, rest, rfl⟩ := List.exists_cons_of_ne_nil hne
  have hpassed := h.passed
  rw [List.cons_append] at hpassed
  rw [(List.cons.inj hpassed).1]
  rfl

theorem Advances.getLast?_eq (h : Advances s tokens t) (hne : tokens ≠ []) :
    tokens.getLast? = some t.lastToken := by
  rw [h.last, List.getLast?_eq_some_getLast hne]
  rfl

/-- Where the lexer advances it goes to the token that is next. -/
theorem advanceLexer_eq_ok (h : Parser.advanceLexer s = .ok ((), t)) :
    ∃ next, Parser.lookahead s = .ok (next, s) ∧ t = Parser.advanced s next := by
  obtain ⟨next, hnext⟩ | hraises := Parser.lookahead_cases s
  · have hlook := (hnext 0).1
    refine ⟨next, hlook, ?_⟩
    by_cases hkind : next.kind = .eof
    · rw [Parser.advanceLexer_of_eof hlook hkind] at h
      exact (Prod.mk.inj (Except.ok.inj h)).2.symm
    · rw [Parser.advanceLexer_of_ne_eof hlook hkind] at h
      cases hmax : s.options.maxTokens with
      | none =>
          rw [hmax] at h
          exact (Prod.mk.inj (Except.ok.inj h)).2.symm
      | some maxTokens =>
          rw [hmax] at h
          change (if maxTokens < s.tokenCounter + 1 then _ else _ : Parser Unit) _ = _ at h
          split at h
          · cases h
          · exact (Prod.mk.inj (Except.ok.inj h)).2.symm
  · obtain ⟨error, herror⟩ := (hraises 0).1
    have hrun : Parser.advanceLexer s = .error (.raised error) := bind_of_error herror
    exact nomatch hrun.symm.trans h

/-- The lexer advances by the current token, unless this is the end of the file. -/
theorem advances_of_advanceLexer (hs : s.Proper) (hne : s.token.kind ≠ .eof)
    (h : Parser.advanceLexer s = .ok ((), t)) : Advances s [s.token] t := by
  obtain ⟨next, hlook, rfl⟩ := advanceLexer_eq_ok h
  have hlater := Parser.later_advanced hs hlook
  refine ⟨hlater.proper, rfl, rfl, ?_, rfl⟩
  cases htokens : s.tokens with
  | cons next' tokens =>
      rw [Parser.lookahead_cons htokens] at hlook
      cases hlook
      simp [Parser.advanced, htokens]
  | nil =>
      cases hfailure : s.failure with
      | none => exact absurd (hs.kind_eq_eof htokens hfailure) hne
      | some error =>
          rw [Parser.lookahead_failure htokens hfailure] at hlook
          cases hlook

end Advances

/-! ## Reading items -/

/-- A run that returns passes by tokens that are spelled by the items. -/
def ReadsAt {α : Type} (s : ParserState) (p : Parser α) (items : α → List SourceItem) : Prop :=
  s.Proper → ∀ a t, p s = .ok (a, t) →
    ∃ tokens, Advances s tokens t ∧ SpellItems s.options.noLocation (items a) tokens

def Scans {α : Type} (p : Parser α) (items : α → List SourceItem) : Prop := ∀ s, ReadsAt s p items

/-- Behind the items that were read since the state, the parser completes the other items. -/
def ReadsFrom {α : Type} (s : ParserState) (before : List SourceItem) (p : Parser α)
    (items : α → List SourceItem) : Prop :=
  ∀ front t, Advances s front t → SpellItems s.options.noLocation before front →
    ∀ a u, p t = .ok (a, u) →
      ∃ tokens, Advances s tokens u ∧ SpellItems s.options.noLocation (items a) tokens

/-- The parser reads a node with the tree. -/
def ReadsNode {α : Type} (p : Parser α) (tree : α → SourceTree) : Prop :=
  Scans p fun a => [.child (tree a)]

section Rules

variable {α β : Type} {p q : Parser α} {f : α → Parser β} {s : ParserState}
  {before : List SourceItem} {items items' : α → List SourceItem}
  {rest : β → List SourceItem} {tree : β → SourceTree}

theorem Scans.congr (h : Scans p items) (heq : ∀ a, items a = items' a) : Scans p items' := by
  have hitems : items = items' := funext heq
  rwa [← hitems]

theorem ReadsFrom.start (h : ReadsFrom s [] p items) : ReadsAt s p items :=
  fun hs => h [] s (Advances.refl hs) .nil

theorem ReadsFrom.last (hp : Scans p items) (heq : ∀ a, items' a = before ++ items a) :
    ReadsFrom s before p items' := by
  intro front t hfront hbefore a u hrun
  obtain ⟨tokens, htokens, hitems⟩ := hp t hfront.proper a u hrun
  rw [hfront.options] at hitems
  rw [heq a]
  exact ⟨front ++ tokens, hfront.trans htokens, hbefore.append hitems⟩

/-- The rule for sequences. -/
theorem ReadsFrom.seq (hp : ReadsFrom s before p items)
    (hf : ∀ a, ReadsFrom s (items a) (f a) rest) : ReadsFrom s before (p >>= f) rest := by
  intro front t hfront hbefore b v hrun
  obtain ⟨a, u, hread, hrest⟩ := run_bind_eq_ok.mp hrun
  obtain ⟨tokens, htokens, hitems⟩ := hp front t hfront hbefore a u hread
  exact hf a tokens u htokens hitems b v hrest

theorem ReadsFrom.bind (hp : Scans p items)
    (hf : ∀ a, ReadsFrom s (before ++ items a) (f a) rest) :
    ReadsFrom s before (p >>= f) rest :=
  .seq (.last hp fun _ => rfl) hf

theorem ReadsFrom.pure {a : α} (heq : items a = before) :
    ReadsFrom s before (Pure.pure a) items := by
  intro front t hfront hbefore a' u hrun
  cases hrun
  rw [heq]
  exact ⟨front, hfront, hbefore⟩

theorem ReadsFrom.ite {c : Prop} [Decidable c] (hp : ReadsFrom s before p items)
    (hq : ReadsFrom s before q items) : ReadsFrom s before (if c then p else q) items := by
  split
  · exact hp
  · exact hq

theorem ReadsFrom.map {g : α → β} (hp : ReadsFrom s before p items)
    (heq : ∀ a, rest (g a) = items a) : ReadsFrom s before (g <$> p) rest := by
  intro front t hfront hbefore b u hrun
  obtain ⟨a, v, hread, hrest⟩ := run_bind_eq_ok.mp hrun
  cases hrest
  rw [heq]
  exact hp front t hfront hbefore a u hread

/-- What is read from the state itself. -/
theorem ReadsFrom.get {g : ParserState → Parser β} (hg : ∀ t, ReadsFrom s before (g t) rest) :
    ReadsFrom s before (Action.get >>= g) rest :=
  fun front t hfront hbefore b u hrun => hg t front t hfront hbefore b u hrun

theorem Parser.loc_eq (startToken : Token) : Parser.loc startToken s =
    .ok (spanOf s.options.noLocation startToken s.lastToken, s) := by
  change (if s.options.noLocation then _ else _ : Parser _) s = _
  unfold spanOf
  split
  · rfl
  · rfl

/-- A node is finished: its items are spelled as those that were read since its start. -/
theorem ReadsFrom.node_relax {mk : Option Location → β} {others : List SourceItem}
    (hsolid : IsSolid before)
    (hrelax : ∀ tokens, SpellItems s.options.noLocation before tokens →
      SpellItems s.options.noLocation others tokens)
    (htree : ∀ loc, tree (mk loc) = .node loc others) :
    ReadsFrom s before (do return mk (← Parser.loc s.token)) fun b => [.child (tree b)] := by
  intro front t hfront hbefore b u hrun
  rw [bind_of_ok (Parser.loc_eq s.token)] at hrun
  cases hrun
  have hne := hbefore.ne_nil hsolid
  refine ⟨front, hfront, spellItems_child ?_⟩
  rw [htree]
  exact .node (hrelax front hbefore) (hfront.head?_eq hne) (hfront.getLast?_eq hne)
    (by rw [hfront.options])

theorem ReadsFrom.node {mk : Option Location → β} (hsolid : IsSolid before)
    (htree : ∀ loc, tree (mk loc) = .node loc before) :
    ReadsFrom s before (do return mk (← Parser.loc s.token)) fun b => [.child (tree b)] :=
  .node_relax hsolid (fun _ h => h) htree

theorem ReadsAt.token_bind {g : Token → Parser β} (h : ReadsAt s (g s.token) rest) :
    ReadsAt s (Parser.token >>= g) rest := h

/-- The start of a node. -/
theorem Scans.token_bind {g : Token → Parser β} (h : ∀ s, ReadsFrom s [] (g s.token) rest) :
    Scans (Parser.token >>= g) rest := fun s => (h s).start

theorem Scans.bind (hp : Scans p items) (hf : ∀ s a, ReadsFrom s (items a) (f a) rest) :
    Scans (p >>= f) rest := fun s => ReadsFrom.start (.bind hp (hf s))

theorem ReadsAt.map {g : α → β} (hp : ReadsAt s p items) (heq : ∀ a, rest (g a) = items a) :
    ReadsAt s (g <$> p) rest := by
  intro hs b t hrun
  obtain ⟨a, u, hread, hrest⟩ := run_bind_eq_ok.mp hrun
  cases hrest
  rw [heq]
  exact hp hs a t hread

theorem Scans.map {g : α → β} (hp : Scans p items) (heq : ∀ a, rest (g a) = items a) :
    Scans (g <$> p) rest := fun s => (hp s).map heq

theorem ReadsNode.map {g : α → β} {trees : α → SourceTree} (hp : ReadsNode p trees)
    (heq : ∀ a, tree (g a) = trees a) : ReadsNode (g <$> p) tree :=
  Scans.map hp fun a => by rw [heq]

theorem Scans.pure {a : α} (heq : items a = []) : Scans (Pure.pure a) items :=
  fun _ => ReadsFrom.start (.pure heq)

theorem Scans.ite {c : Prop} [Decidable c] (hp : Scans p items) (hq : Scans q items) :
    Scans (if c then p else q) items := by
  split
  · exact hp
  · exact hq

/-- Behind the current token. -/
theorem ReadsAt.advance {g : Unit → Parser β} {kind : TokenKind} {value : Option Text}
    (htoken : s.token.Is kind value) (hne : kind ≠ .eof)
    (h : ReadsFrom s [.token kind value] (g ()) rest) :
    ReadsAt s (Parser.advanceLexer >>= g) rest := by
  intro hs b u hrun
  obtain ⟨⟨⟩, t, hadvance, hrest⟩ := run_bind_eq_ok.mp hrun
  have hpassed := advances_of_advanceLexer hs (htoken.1 ▸ hne) hadvance
  exact h [s.token] t hpassed (spellItems_token htoken) b u hrest

end Rules

/-! ## Core parsing utility functions -/

namespace Parser

variable {α β : Type} {s : ParserState} {kind : TokenKind} {value : Text}

theorem reads_raise {items : α → List SourceItem} (position : ℕ) (description : Text) :
    Scans (raise position description) items := fun _ _ _ _ hrun => nomatch hrun

theorem reads_unexpected {items : α → List SourceItem} (atToken : Token) :
    Scans (unexpected atToken) items := reads_raise _ _

theorem readsFrom_raise {before : List SourceItem} {items : α → List SourceItem}
    (position : ℕ) (description : Text) :
    ReadsFrom s before (raise position description) items :=
  fun _ _ _ _ _ _ hrun => nomatch hrun

theorem reads_exhausted {items : α → List SourceItem} : Scans exhausted items :=
  fun _ _ _ _ hrun => nomatch hrun

theorem reads_token : Scans token fun _ => [] := Scans.token_bind fun _ => .pure rfl

theorem reads_peek (kind : TokenKind) : Scans (peek kind) fun _ => [] :=
  Scans.token_bind fun _ => .pure rfl

theorem reads_lookahead : Scans lookahead fun _ => [] := by
  intro s hs next t hrun
  obtain ⟨next', hnext⟩ | hraises := lookahead_cases s
  · rw [(hnext 0).1] at hrun
    cases hrun
    exact ⟨[], Advances.refl hs, .nil⟩
  · obtain ⟨error, herror⟩ := (hraises 0).1
    exact nomatch herror.symm.trans hrun

/-- The kind and the value of the current token. -/
theorem token_is (hkind : s.token.kind = kind) :
    s.token.Is kind (some (s.token.value.getD [])) :=
  ⟨hkind, fun _ htext => Option.some.inj htext⟩

theorem token_is_kind (hkind : s.token.kind = kind) : s.token.Is kind none := ⟨hkind, nofun⟩

theorem token_is_keyword (h : s.token.kind = .name ∧ s.token.value = some value) :
    s.token.Is .name (some value) := by
  refine ⟨h.1, fun text htext => ?_⟩
  rw [h.2]
  exact Option.some.inj htext

theorem expectToken_bind {f : Token → Parser β} :
    expectToken kind >>= f = token >>= fun current =>
      if current.kind = kind then advanceLexer >>= fun _ => f current
      else raise current.start (str "Expected " ++ getTokenKindDesc kind ++ str ", found " ++
        getTokenDesc current ++ str ".") := by
  unfold expectToken
  rw [bind_assoc]
  congr 1
  funext current
  split
  · rw [bind_assoc]
    simp only [pure_bind]
  · rfl

/-- A node that starts with an expected token. -/
theorem readsAt_expectToken {f : Token → Parser β} {rest : β → List SourceItem}
    (hne : kind ≠ .eof)
    (h : ReadsFrom s [.token kind (some (s.token.value.getD []))] (f s.token) rest) :
    ReadsAt s (expectToken kind >>= f) rest := by
  rw [expectToken_bind]
  refine ReadsAt.token_bind ?_
  split
  · rename_i hkind
    exact .advance (token_is hkind) hne h
  · exact reads_raise _ _ s

theorem reads_expectToken (hne : kind ≠ .eof) :
    Scans (expectToken kind) fun _ => [punctItem kind] := by
  refine fun s => ReadsAt.token_bind ?_
  split
  · rename_i hkind
    exact .advance (token_is_kind hkind) hne (.pure rfl)
  · exact reads_raise _ _ s

/-- The item, if it is there. -/
def itemIf (found : Bool) (item : SourceItem) : List SourceItem := if found then [item] else []

theorem reads_expectOptionalToken (hne : kind ≠ .eof) :
    Scans (expectOptionalToken kind) (itemIf · (punctItem kind)) := by
  refine fun s => ReadsAt.token_bind ?_
  split
  · rename_i hkind
    exact .advance (token_is_kind hkind) hne (.pure rfl)
  · exact Scans.pure rfl s

theorem reads_expectKeyword (value : Text) :
    Scans (expectKeyword value) fun _ => [wordItem value] := by
  refine fun s => ReadsAt.token_bind ?_
  split
  · rename_i hname
    rw [← bind_pure advanceLexer]
    exact .advance (token_is_keyword hname) (by decide) (.pure rfl)
  · exact reads_raise _ _ s

theorem reads_expectOptionalKeyword (value : Text) :
    Scans (expectOptionalKeyword value) (itemIf · (wordItem value)) := by
  refine fun s => ReadsAt.token_bind ?_
  split
  · rename_i hname
    exact .advance (token_is_keyword hname) (by decide) (.pure rfl)
  · exact Scans.pure rfl s

theorem reads_orNone {condition : Bool} {parseFn : Parser α} {items : α → List SourceItem}
    (h : Scans parseFn items) :
    Scans (orNone condition parseFn) fun node => (node.map items).getD [] := by
  unfold orNone
  exact .ite (h.map fun _ => rfl) (.pure rfl)

/-- A node that may be missing. -/
theorem reads_maybe {condition : Bool} {parseFn : Parser α} {tree : α → SourceTree}
    (h : ReadsNode parseFn tree) :
    Scans (orNone condition parseFn) fun node => maybeNode (node.map tree) :=
  (reads_orNone h).congr fun node => by cases node <;> rfl

section Loops

variable {parseFn : Parser α} {tree : α → SourceTree} {openKind closeKind : TokenKind}

/-- The nodes that are read up to a token, which is the current one before the last step. -/
theorem itemsUntil_eq_ok (h : ReadsNode parseFn tree) {bound : ℕ} {nodes : List α}
    {t : ParserState} (hs : s.Proper)
    (hrun : itemsUntil closeKind parseFn bound s = .ok (nodes, t)) :
    ∃ tokens u, Advances s tokens u ∧
      SpellItems s.options.noLocation (nodeItems (nodes.map tree)) tokens ∧
      u.token.kind = closeKind ∧ advanceLexer u = .ok ((), t) := by
  induction bound generalizing s nodes with
  | zero => cases hrun
  | succ bound ih =>
      rw [itemsUntil, expectOptionalToken_bind] at hrun
      change (if s.token.kind = closeKind then _ else _ : Parser (List α)) s = _ at hrun
      split at hrun
      · rename_i hkind
        obtain ⟨⟨⟩, t', hadvance, hrun⟩ := run_bind_eq_ok.mp hrun
        cases hrun
        exact ⟨[], s, Advances.refl hs, .nil, hkind, hadvance⟩
      · simp only [Bool.false_eq_true, if_false] at hrun
        obtain ⟨node, u, hnode, hrun⟩ := run_bind_eq_ok.mp hrun
        obtain ⟨nodes, v, hrest, hrun⟩ := run_bind_eq_ok.mp hrun
        cases hrun
        obtain ⟨front, hfront, hspells⟩ := h s hs node u hnode
        obtain ⟨tokens, last, htokens, hitems, hclose, hadvance⟩ := ih hfront.proper hrest
        rw [hfront.options] at hitems
        exact ⟨front ++ tokens, last, hfront.trans htokens, hspells.append hitems, hclose,
          hadvance⟩

theorem reads_itemsUntil (hne : closeKind ≠ .eof) (h : ReadsNode parseFn tree) (bound : ℕ) :
    Scans (itemsUntil closeKind parseFn bound) fun nodes =>
      nodeItems (nodes.map tree) ++ [punctItem closeKind] := by
  intro s hs nodes t hrun
  obtain ⟨tokens, u, htokens, hitems, hclose, hadvance⟩ := itemsUntil_eq_ok h hs hrun
  have hlast := advances_of_advanceLexer htokens.proper (hclose ▸ hne) hadvance
  exact ⟨tokens ++ [u.token], htokens.trans hlast,
    hitems.append (spellItems_token ⟨hclose, nofun⟩)⟩

theorem reads_any (hopen : openKind ≠ .eof) (hclose : closeKind ≠ .eof)
    (h : ReadsNode parseFn tree) (bound : ℕ) :
    Scans (any bound openKind parseFn closeKind) fun nodes =>
      punctItem openKind :: (nodeItems (nodes.map tree) ++ [punctItem closeKind]) :=
  (reads_expectToken hopen).bind fun _ _ =>
    .last (reads_itemsUntil hclose h bound) fun _ => rfl

/-- At least one node is read behind the opening token. -/
theorem reads_someUntil {items : List α → List SourceItem} (hclose : closeKind ≠ .eof)
    (h : ReadsNode parseFn tree) (bound : ℕ)
    (heq : ∀ node nodes, items (node :: nodes) = punctItem openKind ::
      (nodeItems ((node :: nodes).map tree) ++ [punctItem closeKind])) :
    ReadsFrom s [punctItem openKind] (someUntil bound parseFn closeKind) items :=
  .bind h fun _ => .bind (reads_itemsUntil hclose h bound) fun _ => .pure (heq _ _)

theorem reads_many (hopen : openKind ≠ .eof) (hclose : closeKind ≠ .eof)
    (h : ReadsNode parseFn tree) (bound : ℕ) :
    Scans (many bound openKind parseFn closeKind) fun nodes =>
      punctItem openKind :: (nodeItems (nodes.map tree) ++ [punctItem closeKind]) :=
  (reads_expectToken hopen).bind fun _ _ => reads_someUntil hclose h bound fun _ _ => rfl

theorem reads_optionalMany (hopen : openKind ≠ .eof) (hclose : closeKind ≠ .eof)
    (h : ReadsNode parseFn tree) (bound : ℕ) :
    Scans (optionalMany bound openKind parseFn closeKind) fun nodes =>
      blockItems openKind closeKind (treesOf tree nodes) := by
  refine (reads_expectOptionalToken hopen).bind fun s found => ?_
  have hblock : ∀ node nodes, blockItems openKind closeKind (treesOf tree (some (node :: nodes))) =
      punctItem openKind :: (nodeItems ((node :: nodes).map tree) ++ [punctItem closeKind]) :=
    fun _ _ => rfl
  cases found with
  | false => exact .pure rfl
  | true => exact .map (reads_someUntil hclose h bound hblock) fun _ => rfl

/-- The first of the delimited nodes is read before a delimiter. -/
theorem delimitedItems_eq_ok (hne : openKind ≠ .eof) (h : ReadsNode parseFn tree) {bound : ℕ}
    {nodes : List α} {t : ParserState} (hs : s.Proper)
    (hrun : delimitedItems openKind parseFn bound s = .ok (nodes, t)) :
    ∃ node others tokens, nodes = node :: others ∧ Advances s tokens t ∧
      SpellItems s.options.noLocation (.child (tree node) ::
        (others.map tree).flatMap fun tree => [punctItem openKind, .child tree]) tokens := by
  induction bound generalizing s nodes with
  | zero => cases hrun
  | succ bound ih =>
      obtain ⟨node, u, hnode, hrun⟩ := run_bind_eq_ok.mp hrun
      obtain ⟨found, v, hfound, hrun⟩ := run_bind_eq_ok.mp hrun
      obtain ⟨front, hfront, hspells⟩ := h s hs node u hnode
      obtain ⟨delimiter, hdelimiter, hitem⟩ :=
        reads_expectOptionalToken hne u hfront.proper found v hfound
      have hpassed := hfront.trans hdelimiter
      rw [hfront.options] at hitem
      cases found with
      | false =>
          cases hrun
          exact ⟨node, [], _, rfl, hpassed, hspells.append hitem⟩
      | true =>
          obtain ⟨nodes, w, hrest, hrun⟩ := run_bind_eq_ok.mp hrun
          cases hrun
          obtain ⟨next, others, tokens, rfl, htokens, hitems⟩ := ih hpassed.proper hrest
          rw [hpassed.options] at hitems
          exact ⟨node, next :: others, _, rfl, hpassed.trans htokens,
            (hspells.append hitem).append hitems⟩

/-- At least one node is read, and a delimiter before it if there is one. -/
theorem reads_delimitedMany {before : List SourceItem} {items : List α → List SourceItem}
    (hne : openKind ≠ .eof) (h : ReadsNode parseFn tree) (bound : ℕ)
    (heq : ∀ node nodes, items (node :: nodes) =
      before ++ delimitedNodes openKind ((node :: nodes).map tree)) :
    ReadsFrom s before (delimitedMany bound openKind parseFn) items := by
  refine .bind (reads_expectOptionalToken hne) fun found front t hfront hbefore nodes u hrun => ?_
  obtain ⟨node, others, tokens, rfl, htokens, hitems⟩ :=
    delimitedItems_eq_ok hne h hfront.proper hrun
  rw [hfront.options] at hitems
  refine ⟨front ++ tokens, hfront.trans htokens, ?_⟩
  rw [heq]
  cases found with
  | false =>
      rw [itemIf, if_neg Bool.false_ne_true, List.append_nil] at hbefore
      exact hbefore.append (.absent hitems)
  | true =>
      have hall := hbefore.append hitems
      rw [itemIf, if_pos rfl, List.append_assoc] at hall
      exact hall.relax

end Loops

end Parser

end GraphqlCore.Language
