import GraphqlCore.Language.TokenLimit
import Mathlib.Data.List.Chain

/-!
# Trees over the tokens of a source

What a node of a document takes up in the source: its own tokens and its children, in the
order in which the grammar has them.  A tree spells a list of tokens where they are those of
its grammar and its location goes from the start of the first to the end of the last of them.
Then the locations in the tree nest, as the tokens of a source stand one behind the other.
-/

namespace GraphqlCore.Language

mutual

inductive SourceTree
  | node (loc : Option Location) (items : List SourceItem)

inductive SourceItem
  /-- A token of the kind, and with the value if one is given. -/
  | token (kind : TokenKind) (value : Option Text)
  /-- A token that may be left out. -/
  | optional (kind : TokenKind) (value : Option Text)
  | child (tree : SourceTree)

end

namespace SourceTree

def loc : SourceTree → Option Location
  | node loc _ => loc

def items : SourceTree → List SourceItem
  | node _ items => items

end SourceTree

def SourceItem.tree : SourceItem → Option SourceTree
  | child tree => some tree
  | _ => none

/-- The children among the items, in source order. -/
def childTrees (items : List SourceItem) : List SourceTree := items.filterMap SourceItem.tree

def Token.Is (token : Token) (kind : TokenKind) (value : Option Text) : Prop :=
  token.kind = kind ∧ ∀ text, value = some text → token.value.getD [] = text

/-- From the start of the first to the end of the last token, unless nodes have no locations. -/
def spanOf (noLocation : Bool) (first last : Token) : Option Location :=
  if noLocation then none else some ⟨first.start, last.stop⟩

mutual

/-- The tokens are those of the tree, and its location goes from the first to the last. -/
inductive Spells (noLocation : Bool) : SourceTree → List Token → Prop
  | node {loc : Option Location} {items : List SourceItem} {tokens : List Token}
      {first last : Token} (hitems : SpellItems noLocation items tokens)
      (hfirst : tokens.head? = some first) (hlast : tokens.getLast? = some last)
      (hloc : loc = spanOf noLocation first last) : Spells noLocation (.node loc items) tokens

inductive SpellItems (noLocation : Bool) : List SourceItem → List Token → Prop
  | nil : SpellItems noLocation [] []
  | token {kind : TokenKind} {value : Option Text} {items : List SourceItem} {token : Token}
      {tokens : List Token} (htoken : token.Is kind value)
      (hitems : SpellItems noLocation items tokens) :
      SpellItems noLocation (.token kind value :: items) (token :: tokens)
  | absent {kind : TokenKind} {value : Option Text} {items : List SourceItem}
      {tokens : List Token} (hitems : SpellItems noLocation items tokens) :
      SpellItems noLocation (.optional kind value :: items) tokens
  | present {kind : TokenKind} {value : Option Text} {items : List SourceItem} {token : Token}
      {tokens : List Token} (htoken : token.Is kind value)
      (hitems : SpellItems noLocation items tokens) :
      SpellItems noLocation (.optional kind value :: items) (token :: tokens)
  | child {tree : SourceTree} {items : List SourceItem} {front tokens : List Token}
      (htree : Spells noLocation tree front) (hitems : SpellItems noLocation items tokens) :
      SpellItems noLocation (.child tree :: items) (front ++ tokens)

end

/-! ## Items one behind the other -/

section Items

variable {noLocation : Bool} {items items' : List SourceItem} {tokens tokens' : List Token}
  {token : Token} {tree : SourceTree} {kind : TokenKind} {value : Option Text}

theorem SpellItems.append (h : SpellItems noLocation items tokens)
    (h' : SpellItems noLocation items' tokens') :
    SpellItems noLocation (items ++ items') (tokens ++ tokens') := by
  induction items generalizing tokens with
  | nil =>
      cases h
      exact h'
  | cons item items ih =>
      cases h with
      | token htoken hitems => exact .token htoken (ih hitems)
      | absent hitems => exact .absent (ih hitems)
      | present htoken hitems => exact .present htoken (ih hitems)
      | child htree hitems =>
          rw [List.append_assoc]
          exact .child htree (ih hitems)

/-- A token that is there may be one that need not be. -/
theorem SpellItems.relax {before : List SourceItem}
    (h : SpellItems noLocation (before ++ (.token kind value :: items)) tokens) :
    SpellItems noLocation (before ++ (.optional kind value :: items)) tokens := by
  induction before generalizing tokens with
  | nil =>
      cases h with
      | token htoken hitems => exact .present htoken hitems
  | cons item before ih =>
      cases h with
      | token htoken hitems => exact .token htoken (ih hitems)
      | absent hitems => exact .absent (ih hitems)
      | present htoken hitems => exact .present htoken (ih hitems)
      | child htree hitems => exact .child htree (ih hitems)

theorem spellItems_token (h : token.Is kind value) :
    SpellItems noLocation [.token kind value] [token] := .token h .nil

theorem spellItems_child (h : Spells noLocation tree tokens) :
    SpellItems noLocation [.child tree] tokens := by
  have hitems := SpellItems.child h .nil
  rwa [List.append_nil] at hitems

theorem Spells.ne_nil (h : Spells noLocation tree tokens) : tokens ≠ [] := by
  cases h with
  | node _ hfirst => exact fun hnil => nomatch hnil ▸ hfirst

/-- Some item is not optional. -/
def IsSolid (items : List SourceItem) : Prop :=
  ∃ item ∈ items, ∀ kind value, item ≠ .optional kind value

theorem SpellItems.ne_nil (h : SpellItems noLocation items tokens) (hsolid : IsSolid items) :
    tokens ≠ [] := by
  obtain ⟨item, hmem, hitem⟩ := hsolid
  induction items generalizing tokens with
  | nil => nomatch hmem
  | cons first items ih =>
      cases h with
      | token => exact List.cons_ne_nil _ _
      | present => exact List.cons_ne_nil _ _
      | child htree => exact fun hnil => htree.ne_nil (List.append_eq_nil_iff.mp hnil).1
      | absent hitems =>
          rcases List.mem_cons.mp hmem with rfl | hmem
          · exact absurd rfl (hitem _ _)
          · exact ih hitems hmem

@[simp]
theorem isSolid_token_cons : IsSolid (.token kind value :: items) :=
  ⟨_, List.mem_cons_self, nofun⟩

@[simp]
theorem isSolid_child_cons : IsSolid (.child tree :: items) := ⟨_, List.mem_cons_self, nofun⟩

@[simp]
theorem isSolid_append : IsSolid (items ++ items') ↔ IsSolid items ∨ IsSolid items' := by
  constructor
  · rintro ⟨item, hmem, hitem⟩
    exact (List.mem_append.mp hmem).imp (⟨item, ·, hitem⟩) (⟨item, ·, hitem⟩)
  · rintro (⟨item, hmem, hitem⟩ | ⟨item, hmem, hitem⟩)
    · exact ⟨item, List.mem_append_left _ hmem, hitem⟩
    · exact ⟨item, List.mem_append_right _ hmem, hitem⟩

end Items

/-! ## Trees and tokens in order -/

def Location.IsInside (loc : Location) (start stop : ℕ) : Prop :=
  start ≤ loc.start ∧ loc.stop ≤ stop

/-- The location of the first tree ends before that of the second starts. -/
def SourceTree.IsBefore (tree tree' : SourceTree) : Prop :=
  ∃ loc loc', tree.loc = some loc ∧ tree'.loc = some loc' ∧ loc.stop ≤ loc'.start

/-- Every location is not empty, those of the children are inside, and they are disjoint and
in source order. -/
inductive Nested : SourceTree → Prop
  | node {start stop : ℕ} {items : List SourceItem} (hlt : start < stop)
      (hinside : ∀ child ∈ childTrees items,
        ∃ loc, child.loc = some loc ∧ loc.IsInside start stop)
      (hordered : (childTrees items).Pairwise SourceTree.IsBefore)
      (hnested : ∀ child ∈ childTrees items, Nested child) :
      Nested (.node (some ⟨start, stop⟩) items)

/-- The tokens are not empty and stand one behind the other. -/
structure InOrder (tokens : List Token) : Prop where
  wide : ∀ token ∈ tokens, token.start < token.stop
  ordered : tokens.Pairwise fun token next => token.stop ≤ next.start

section InOrder

variable {tokens front rest : List Token} {first last : Token}

theorem InOrder.append_iff : InOrder (front ++ rest) ↔
    InOrder front ∧ InOrder rest ∧
      ∀ token ∈ front, ∀ next ∈ rest, token.stop ≤ next.start := by
  constructor
  · rintro ⟨hwide, hordered⟩
    obtain ⟨hfront, hrest, hboth⟩ := List.pairwise_append.mp hordered
    exact ⟨⟨fun token h => hwide token (List.mem_append_left _ h), hfront⟩,
      ⟨fun token h => hwide token (List.mem_append_right _ h), hrest⟩, hboth⟩
  · rintro ⟨hfront, hrest, hboth⟩
    refine ⟨fun token h => ?_, List.pairwise_append.mpr ⟨hfront.ordered, hrest.ordered, hboth⟩⟩
    rcases List.mem_append.mp h with h | h
    · exact hfront.wide token h
    · exact hrest.wide token h

theorem InOrder.first_le (h : InOrder tokens) (hfirst : tokens.head? = some first) :
    ∀ token ∈ tokens, first.start ≤ token.start := by
  obtain ⟨rest, rfl⟩ := List.head?_eq_some_iff.mp hfirst
  intro token hmem
  rcases List.mem_cons.mp hmem with rfl | hmem
  · exact le_rfl
  · have hwide := h.wide first List.mem_cons_self
    have hordered := (List.pairwise_cons.mp h.ordered).1 token hmem
    omega

theorem InOrder.le_last (h : InOrder tokens) (hlast : tokens.getLast? = some last) :
    ∀ token ∈ tokens, token.stop ≤ last.stop := by
  obtain ⟨front, rfl⟩ := List.getLast?_eq_some_iff.mp hlast
  intro token hmem
  rcases List.mem_append.mp hmem with hmem | hmem
  · have hwide := h.wide last List.mem_concat_self
    have hordered := (List.pairwise_append.mp h.ordered).2.2 token hmem last
      (List.mem_singleton_self _)
    omega
  · rw [List.mem_singleton.mp hmem]

end InOrder

/-! ## The order of the tokens of a source -/

/-- Only the last token of a source is the end of the file. -/
theorem ne_eof_of_endsProperly {token last : Token} {tokens : List Token}
    {failure : Option SyntaxError} (h : EndsProperly token (tokens ++ [last]) failure) :
    ∀ next ∈ token :: tokens, next.kind ≠ .eof := by
  induction tokens generalizing token with
  | nil => exact List.forall_mem_cons.mpr ⟨h.1, nofun⟩
  | cons next tokens ih => exact List.forall_mem_cons.mpr ⟨h.1, ih h.2⟩

/-- The token is not empty from its start on, and ends before the next one starts. -/
def Token.IsBefore (token next : Token) : Prop :=
  token.start ≤ token.stop ∧ token.stop ≤ next.start

instance : Trans Token.IsBefore Token.IsBefore Token.IsBefore where
  trans h h' := ⟨h.1, h.2.trans (h'.1.trans h'.2)⟩

/-- The tokens of a source stand one behind the other, and only the end of the file is empty. -/
theorem lex_ordered (source : Text) : (lex source).1.Pairwise Token.IsBefore ∧
    ∀ token ∈ (lex source).1, token.start ≤ token.stop ∧
      (token.kind ≠ .eof → token.start < token.stop) := by
  have htokens : (lex source).1 = (tokenChain source).1.filter fun token => token.kind ≠ .comment :=
    congrArg Prod.fst (lexTokens_eq (Nat.lt_succ_self source.length))
  obtain ⟨hfollows, hcovers⟩ := tokenChain_chained source
  have hwide : ∀ token ∈ (tokenChain source).1, token.start ≤ token.stop ∧
      (token.kind ≠ .eof → token.start < token.stop) := by
    intro token hmem
    obtain ⟨before, text, -, hcover⟩ := hcovers token hmem
    rw [hcover.start_eq, hcover.stop_eq]
    refine ⟨Nat.le_add_right _ _, fun hkind => ?_⟩
    have hpos := List.length_pos_iff.mpr (mt hcover.kind_eq_eof_iff.mpr hkind)
    omega
  have hchain : (tokenChain source).1.IsChain Token.IsBefore :=
    hfollows.of_cons.imp_of_mem_imp fun token next hmem _ h => ⟨(hwide token hmem).1, h.1⟩
  rw [htokens]
  exact ⟨hchain.pairwise.filter _, fun token hmem => hwide token (List.mem_of_mem_filter hmem)⟩

/-! ## Nested locations -/

/-- The location goes from the start of one of the tokens to the end of one. -/
def SourceTree.IsAt (tree : SourceTree) (tokens : List Token) : Prop :=
  ∃ first ∈ tokens, ∃ last ∈ tokens, tree.loc = some ⟨first.start, last.stop⟩

theorem SourceTree.IsAt.mono {tree : SourceTree} {tokens tokens' : List Token}
    (h : tree.IsAt tokens) (hsub : tokens ⊆ tokens') : tree.IsAt tokens' := by
  obtain ⟨first, hfirst, last, hlast, hloc⟩ := h
  exact ⟨first, hsub hfirst, last, hsub hlast, hloc⟩

theorem Spells.isAt {tree : SourceTree} {tokens : List Token} (h : Spells false tree tokens) :
    tree.IsAt tokens := by
  cases h with
  | node _ hfirst hlast hloc =>
      exact ⟨_, List.mem_of_head? hfirst, _, List.mem_of_getLast? hlast, hloc⟩

/-- The children are nested, and stand one behind the other among the tokens. -/
structure NestedItems (items : List SourceItem) (tokens : List Token) : Prop where
  nested : ∀ child ∈ childTrees items, Nested child
  isAt : ∀ child ∈ childTrees items, child.IsAt tokens
  ordered : (childTrees items).Pairwise SourceTree.IsBefore

section Nesting

variable {items : List SourceItem} {item : SourceItem} {tokens tokens' front : List Token}
  {first last : Token} {tree : SourceTree}

theorem NestedItems.skip (h : NestedItems items tokens) (hitem : item.tree = none)
    (hsub : tokens ⊆ tokens') : NestedItems (item :: items) tokens' := by
  have hchildren : childTrees (item :: items) = childTrees items := List.filterMap_cons_none hitem
  refine ⟨?_, ?_, ?_⟩
  · rw [hchildren]
    exact h.nested
  · rw [hchildren]
    exact fun child hmem => (h.isAt child hmem).mono hsub
  · rw [hchildren]
    exact h.ordered

theorem NestedItems.child (htree : Nested tree) (hat : tree.IsAt front)
    (h : NestedItems items tokens) (horder : InOrder (front ++ tokens)) :
    NestedItems (.child tree :: items) (front ++ tokens) where
  nested := List.forall_mem_cons.mpr ⟨htree, h.nested⟩
  isAt := List.forall_mem_cons.mpr ⟨hat.mono (List.subset_append_left _ _),
    fun child hmem => (h.isAt child hmem).mono (List.subset_append_right _ _)⟩
  ordered := by
    refine List.pairwise_cons.mpr ⟨fun child hmem => ?_, h.ordered⟩
    obtain ⟨_, _, last, hlast, hloc⟩ := hat
    obtain ⟨first, hfirst, _, _, hloc'⟩ := h.isAt child hmem
    exact ⟨_, _, hloc, hloc', (InOrder.append_iff.mp horder).2.2 last hlast first hfirst⟩

theorem NestedItems.node (h : NestedItems items tokens) (horder : InOrder tokens)
    (hfirst : tokens.head? = some first) (hlast : tokens.getLast? = some last) :
    Nested (.node (some ⟨first.start, last.stop⟩) items) := by
  refine .node ?_ (fun child hmem => ?_) h.ordered h.nested
  · have hwide := horder.wide first (List.mem_of_head? hfirst)
    have hle := horder.le_last hlast first (List.mem_of_head? hfirst)
    omega
  · obtain ⟨first', hfirst', last', hlast', hloc⟩ := h.isAt child hmem
    exact ⟨_, hloc, horder.first_le hfirst first' hfirst', horder.le_last hlast last' hlast'⟩

theorem InOrder.tail {token : Token} (h : InOrder (token :: tokens)) : InOrder tokens where
  wide := fun token' hmem => h.wide token' (List.mem_cons_of_mem _ hmem)
  ordered := (List.pairwise_cons.mp h.ordered).2

mutual

/-- What is spelled by tokens in order is nested. -/
theorem Spells.nested {tree : SourceTree} {tokens : List Token} :
    Spells false tree tokens → InOrder tokens → Nested tree
  | .node hitems hfirst hlast hloc, horder => by
      rw [hloc]
      exact (hitems.nested horder).node horder hfirst hlast

theorem SpellItems.nested {items : List SourceItem} {tokens : List Token} :
    SpellItems false items tokens → InOrder tokens → NestedItems items tokens
  | .nil, _ => ⟨nofun, nofun, List.Pairwise.nil⟩
  | .token _ hitems, horder =>
      (hitems.nested horder.tail).skip rfl (List.subset_cons_self _ _)
  | .absent hitems, horder => (hitems.nested horder).skip rfl (List.Subset.refl _)
  | .present _ hitems, horder =>
      (hitems.nested horder.tail).skip rfl (List.subset_cons_self _ _)
  | .child htree hitems, horder =>
      have hparts := InOrder.append_iff.mp horder
      .child (htree.nested hparts.1) htree.isAt (hitems.nested hparts.2.1) horder

end

end Nesting

end GraphqlCore.Language
