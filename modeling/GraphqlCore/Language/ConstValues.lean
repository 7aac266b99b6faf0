import GraphqlCore.Language.TokenLimit

/-!
# Constant values

The parser of values reads constant values and other values with the same methods.
For constant values it returns the same nodes, but only those without a variable.
-/

namespace GraphqlCore.Language

/-- Is there a variable node at some depth? -/
inductive ContainsVariable : ValueNode → Prop
  | variable (node : VariableNode) : ContainsVariable (.variable node)
  | item {values : List ValueNode} {value : ValueNode} {loc : Option Location}
      (hvalue : value ∈ values) (h : ContainsVariable value) :
      ContainsVariable (.list values loc)
  | field {fields : List ObjectFieldNode} {field : ObjectFieldNode}
      {loc : Option Location} (hfield : field ∈ fields)
      (h : ContainsVariable field.value) : ContainsVariable (.object fields loc)

/-! ## Restricted parsers -/

/-- The first parser returns what the second one does, if that has the property. -/
def Restricts {α : Type} (x y : Parser α) (P : α → Prop) : Prop :=
  ∀ s a t, x s = .ok (a, t) ↔ y s = .ok (a, t) ∧ P a

/-- What the parser returns has the property. -/
def Returns {α : Type} (x : Parser α) (P : α → Prop) : Prop :=
  ∀ s a t, x s = .ok (a, t) → P a

variable {α β : Type} {x y : Parser α} {f g : α → Parser β}
variable {P : α → Prop} {R : β → Prop}

theorem Returns.bind (h : ∀ a, Returns (f a) R) : Returns (x >>= f) R := by
  intro s b u hrun
  obtain ⟨a, t, -, hrun⟩ := run_bind_eq_ok.mp hrun
  exact h a t b u hrun

theorem Returns.map {h : α → β} (hR : ∀ a, R (h a)) : Returns (h <$> x) R := by
  intro s b u hrun
  obtain ⟨a, t, -, hrun⟩ := run_bind_eq_ok.mp hrun
  cases hrun
  exact hR a

theorem Returns.pure {a : α} (h : P a) : Returns (Pure.pure a : Parser α) P := by
  intro s b t hrun
  cases hrun
  exact h

theorem Returns.ite {c : Prop} [Decidable c] (h : Returns x P) (h' : Returns y P) :
    Returns (if c then x else y) P := by
  split
  · exact h
  · exact h'

namespace Restricts

theorem of_returns (h : Returns x P) : Restricts x x P :=
  fun s a t => ⟨fun hrun => ⟨hrun, h s a t hrun⟩, fun hrun => hrun.1⟩

/-- A parser that never returns, and one that returns nothing with the property. -/
theorem of_never (hx : Returns x fun _ => False) (hy : Returns y fun a => ¬ P a) :
    Restricts x y P :=
  fun s a t => ⟨fun hrun => (hx s a t hrun).elim,
    fun hrun => absurd hrun.2 (hy s a t hrun.1)⟩

/-- Values without the property are followed by values without it. -/
theorem bind (h : Restricts x y P) (hf : ∀ a, P a → Restricts (f a) (g a) R)
    (hn : ∀ a, ¬ P a → Returns (g a) fun b => ¬ R b) :
    Restricts (x >>= f) (y >>= g) R := by
  intro s b u
  rw [run_bind_eq_ok, run_bind_eq_ok]
  constructor
  · rintro ⟨a, t, hx, hfa⟩
    obtain ⟨hy, ha⟩ := (h s a t).mp hx
    obtain ⟨hga, hb⟩ := (hf a ha t b u).mp hfa
    exact ⟨⟨a, t, hy, hga⟩, hb⟩
  · rintro ⟨⟨a, t, hy, hga⟩, hb⟩
    by_cases ha : P a
    · exact ⟨a, t, (h s a t).mpr ⟨hy, ha⟩, (hf a ha t b u).mpr ⟨hga, hb⟩⟩
    · exact absurd hb (hn a ha t b u hga)

theorem seq (h : ∀ a, Restricts (f a) (g a) R) : Restricts (x >>= f) (x >>= g) R := by
  refine (of_returns (P := fun _ => True) fun _ _ _ _ => trivial).bind
    (fun a _ => h a) fun a ha => absurd trivial ha

theorem ite {c : Prop} [Decidable c] {x' y' : Parser α} (h : Restricts x y P)
    (h' : Restricts x' y' P) :
    Restricts (if c then x else x') (if c then y else y') P := by
  split
  · exact h
  · exact h'

end Restricts

namespace Parser

theorem restricts_itemsUntil {closeKind : TokenKind} (h : Restricts x y P) :
    ∀ bound, Restricts (itemsUntil closeKind x bound) (itemsUntil closeKind y bound)
      fun nodes => ∀ node ∈ nodes, P node
  | 0 => fun _ _ _ => ⟨fun hrun => (nomatch hrun), fun hrun => nomatch hrun.1⟩
  | bound + 1 => by
      refine Restricts.seq fun _ => Restricts.ite ?_ ?_
      · refine Restricts.of_returns fun s nodes t hrun => ?_
        cases hrun
        exact fun _ hnode => nomatch hnode
      · refine h.bind (fun node hnode => ?_) fun node hnode => ?_
        · refine (restricts_itemsUntil h bound).bind (fun nodes hnodes => ?_)
            fun nodes hnodes => ?_
          · refine Restricts.of_returns fun s _ t hrun => ?_
            cases hrun
            exact List.forall_mem_cons.mpr ⟨hnode, hnodes⟩
          · intro s _ t hrun hall
            cases hrun
            exact hnodes (List.forall_mem_cons.mp hall).2
        · refine Returns.bind fun nodes s _ t hrun hall => ?_
          cases hrun
          exact hnode (List.forall_mem_cons.mp hall).1

theorem restricts_any {bound : ℕ} {openKind closeKind : TokenKind}
    (h : Restricts x y P) :
    Restricts (any bound openKind x closeKind) (any bound openKind y closeKind)
      fun nodes => ∀ node ∈ nodes, P node :=
  Restricts.seq fun _ => restricts_itemsUntil h bound

theorem restricts_parseObjectField {x y : Parser ValueNode}
    (h : Restricts x y fun value => ¬ ContainsVariable value) :
    Restricts (parseObjectField x) (parseObjectField y)
      fun field => ¬ ContainsVariable field.value :=
  Restricts.seq fun _ => Restricts.seq fun _ => Restricts.seq fun _ =>
    h.bind (fun _ hvalue => Restricts.of_returns (Returns.map fun _ => hvalue))
      fun _ hvalue => Returns.map fun _ => not_not.mpr (not_not.mp hvalue)

/-- The parser of constant values returns the values without a variable. -/
theorem restricts_parseValueLiteral : ∀ bound,
    Restricts (parseConstValueLiteral bound) (parseValueLiteral bound false)
      fun value => ¬ ContainsVariable value
  | 0 => fun _ _ _ => ⟨fun hrun => (nomatch hrun), fun hrun => nomatch hrun.1⟩
  | bound + 1 => by
      have hvalue := restricts_parseValueLiteral bound
      refine Restricts.seq fun start => ?_
      cases hkind : start.kind <;> dsimp only
      case bracketL =>
        refine (restricts_any hvalue).bind (fun values hvalues => ?_) fun values hvalues => ?_
        · refine Restricts.of_returns (Returns.map fun loc => ?_)
          rintro (_ | ⟨hmem, hcontains⟩)
          exact hvalues _ hmem hcontains
        · refine Returns.map fun loc hnot => hvalues fun value hmem hcontains => ?_
          exact hnot (.item hmem hcontains)
      case braceL =>
        refine (restricts_any (restricts_parseObjectField hvalue)).bind
          (fun fields hfields => ?_) fun fields hfields => ?_
        · refine Restricts.of_returns (Returns.map fun loc => ?_)
          rintro (_ | _ | ⟨hmem, hcontains⟩)
          exact hfields _ hmem hcontains
        · refine Returns.map fun loc hnot => hfields fun field hmem hcontains => ?_
          exact hnot (.field hmem hcontains)
      case int =>
        exact Restricts.of_returns (Returns.bind fun _ => Returns.bind fun _ =>
          Returns.map fun _ h => nomatch h)
      case float =>
        exact Restricts.of_returns (Returns.bind fun _ => Returns.bind fun _ =>
          Returns.map fun _ h => nomatch h)
      case string => exact Restricts.of_returns (Returns.map fun _ h => nomatch h)
      case blockString => exact Restricts.of_returns (Returns.map fun _ h => nomatch h)
      case name =>
        refine Restricts.of_returns (Returns.bind fun _ => Returns.bind fun _ =>
          Returns.bind fun _ => ?_)
        refine Returns.ite (Returns.pure fun h => (nomatch h)) (Returns.ite
          (Returns.pure fun h => (nomatch h)) (Returns.ite
            (Returns.pure fun h => (nomatch h)) (Returns.pure fun h => (nomatch h))))
      case dollar =>
        refine Restricts.of_never ?_ (Returns.map fun node => not_not.mpr (.variable node))
        refine Returns.bind fun _ => Returns.bind fun _ => Returns.ite ?_ ?_
        · exact fun _ _ _ hrun => nomatch hrun
        · exact fun _ _ _ hrun => nomatch hrun
      all_goals exact Restricts.of_returns fun _ _ _ hrun => nomatch hrun

theorem restricts_whole {α : Type} {x y : Parser α} {P : α → Prop}
    (h : Restricts x y P) : Restricts (whole x) (whole y) P :=
  Restricts.seq fun _ => h.bind
    (fun _ hnode => Restricts.of_returns (Returns.bind fun _ => Returns.pure hnode))
    fun _ hnode => Returns.bind fun _ => Returns.pure hnode

end Parser

/-- The constant values are the values without a variable: parsing them returns what
parsing a value returns, if that contains no variable node.  Both parsers are total. -/
theorem parseConstValue_eq_ok_iff (options : ParseOptions) (source : Text) :
    (∀ value, parseConstValue options source = .ok value ↔
      parseValue options source = .ok value ∧ ¬ ContainsVariable value) ∧
      parseConstValue options source ≠ .error .exhausted ∧
      parseValue options source ≠ .error .exhausted := by
  refine ⟨fun value => ?_, runParser_ne_exhausted
      (Parser.regular_whole Parser.regular_parseValueLiteral.zero),
    runParser_ne_exhausted (Parser.regular_whole Parser.regular_parseValueLiteral.zero)⟩
  have hrestricts := Parser.restricts_whole
    (Parser.restricts_parseValueLiteral ((lex source).1.length + 1))
  rw [parseConstValue, parseValue, runParser_eq_ok, runParser_eq_ok]
  constructor
  · rintro ⟨t, hrun⟩
    obtain ⟨hrun, hvalue⟩ := (hrestricts _ value t).mp hrun
    exact ⟨⟨t, hrun⟩, hvalue⟩
  · rintro ⟨⟨t, hrun⟩, hvalue⟩
    exact ⟨t, (hrestricts _ value t).mpr ⟨hrun, hvalue⟩⟩

end GraphqlCore.Language
