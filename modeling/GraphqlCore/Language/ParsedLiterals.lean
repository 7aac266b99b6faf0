import GraphqlCore.Language.ParsedItems
import GraphqlCore.Language.ValueTexts

/-!
# Sound tokens

The lexer gives tokens with the values of names, numbers and block strings.
-/

namespace GraphqlCore.Language

/-- The value of the token is of its kind. -/
def Token.Sound (token : Token) : Prop :=
  match token.kind with
  | .name => IsName (token.value.getD [])
  | .int => SpellsNumber false (token.value.getD [])
  | .float => SpellsNumber true (token.value.getD [])
  | .blockString => IsBlockValue (token.value.getD [])
  | _ => True

theorem Token.Sound.name {token : Token} (h : token.Sound) (hkind : token.kind = .name) :
    IsName (token.value.getD []) := by
  rwa [Token.Sound, hkind] at h

theorem isBlockValue_of_valueLines {lines : List Text} (h : ValueLines lines) :
    IsBlockValue (joinLines lines) := by
  cases h with
  | nil => exact ⟨.nil, .inl rfl⟩
  | cons hlines hprintable =>
      have hsplit := splitOn_joinLines fun line hline => (hlines line hline).noFeed
      refine ⟨blockText_joinLines fun line hline => (hlines line hline).text, .inr ?_⟩
      rw [hsplit]
      exact ⟨by simpa using hprintable.firstLine, hprintable.lastLine⟩

theorem SpellsToken.sound {token : Token} {text : Text}
    (h : SpellsToken token.kind token.value text) : token.Sound := by
  obtain ⟨kind, start, stop, line, column, value⟩ := token
  cases h with
  | punctuator hkind =>
      rw [kindForPunct.eq_def] at hkind
      split at hkind <;> cases hkind <;> trivial
  | spread => trivial
  | name hstart htext => exact ⟨_, _, rfl, hstart, htext⟩
  | @number isFloat text hspells =>
      cases isFloat
      · exact hspells
      · exact hspells
  | string => trivial
  | blockString hspells => exact isBlockValue_of_valueLines hspells.valueLines

theorem readNextToken_sound {cursor next : Cursor} {token : Token}
    (hread : readNextToken cursor = .ok (token, next)) : token.Sound := by
  obtain ⟨skipped, start, -, -, -, hbehind⟩ := readNextToken_behind cursor
  rw [hread] at hbehind
  rcases hbehind with ⟨-, hend⟩ | ⟨c, rest, -, -, htoken⟩
  · obtain ⟨rfl, -⟩ := Prod.mk.inj (Except.ok.inj hend)
    trivial
  · by_cases hcomment : token.kind = .comment
    · rw [Token.Sound, hcomment]
      trivial
    · obtain ⟨text, -, hspells, -⟩ := spells_of_readToken htoken.symm hcomment
      exact hspells.sound

/-- What holds of all tokens that are read holds of the tokens of a source. -/
theorem lexTokens_forall {P : Token → Prop}
    (h : ∀ {cursor next token}, readNextToken cursor = .ok (token, next) → P token) (limit : ℕ)
    (cursor : Cursor) : ∀ token ∈ (lexTokens limit cursor).1, P token := by
  induction limit generalizing cursor with
  | zero => exact List.forall_mem_nil _
  | succ limit ih =>
      rw [lexTokens]
      split
      · exact List.forall_mem_nil _
      · next token next hread =>
        split
        · exact List.forall_mem_singleton.mpr (h hread)
        · split
          next tail error hlex =>
          have htail := ih next
          rw [hlex] at htail
          split
          · exact htail
          · exact List.forall_mem_cons.mpr ⟨h hread, htail⟩

end GraphqlCore.Language
