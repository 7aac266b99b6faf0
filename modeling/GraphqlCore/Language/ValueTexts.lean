import GraphqlCore.Data.Readable
import GraphqlCore.Language.NestedBlockStrings
import GraphqlCore.Language.WrittenValues

/-!
# The texts of values

What the printer makes of a literal tells the literal, but for the locations: the texts of
its values and fields can be read one after another, in whatever lines they stand.
-/

namespace GraphqlCore.Language

/-! ## Literals -/

/-- A value that the lexer reads from a block string: no blank line at its ends. -/
def IsBlockValue (value : Text) : Prop :=
  BlockText value ∧ (value = [] ∨
    (∀ line ∈ (value.splitOn 10).head?, isBlank line = false) ∧
      ∀ line ∈ (value.splitOn 10).getLast?, isBlank line = false)

mutual

/-- Names, numbers, words and block strings are such as the lexer reads them. -/
def ValueNode.IsLiteral : ValueNode → Prop
  | .variable node => IsName node.name.value
  | .int value _ => SpellsNumber false value
  | .float value _ => SpellsNumber true value
  | .string node => node.block = some true → IsBlockValue node.value
  | .boolean _ _ => True
  | .null _ => True
  | .enum value _ => IsEnumName value
  | .list values _ => AreLiterals values
  | .object fields _ => AreFields fields

def AreLiterals : List ValueNode → Prop
  | [] => True
  | value :: values => value.IsLiteral ∧ AreLiterals values

def AreFields : List ObjectFieldNode → Prop
  | [] => True
  | ⟨name, value, _⟩ :: fields => IsName name.value ∧ value.IsLiteral ∧ AreFields fields

end

mutual

/-- The literal without locations. -/
def ValueNode.content : ValueNode → ValueNode
  | .variable node => .variable { name := { value := node.name.value } }
  | .int value _ => .int value none
  | .float value _ => .float value none
  | .string node => .string { value := node.value, block := some (node.block = some true) }
  | .boolean value _ => .boolean value none
  | .null _ => .null none
  | .enum value _ => .enum value none
  | .list values _ => .list (contents values) none
  | .object fields _ => .object (fieldContents fields) none

def contents : List ValueNode → List ValueNode
  | [] => []
  | value :: values => value.content :: contents values

def fieldContents : List ObjectFieldNode → List ObjectFieldNode
  | [] => []
  | ⟨name, value, _⟩ :: fields =>
      ⟨{ value := name.value }, value.content, none⟩ :: fieldContents fields

end

def ObjectFieldNode.content (field : ObjectFieldNode) : ObjectFieldNode :=
  ⟨{ value := field.name.value }, field.value.content, none⟩

def ObjectFieldNode.IsField (field : ObjectFieldNode) : Prop :=
  IsName field.name.value ∧ field.value.IsLiteral

theorem contents_eq (values : List ValueNode) : contents values = values.map ValueNode.content := by
  induction values with
  | nil => rfl
  | cons value values ih => rw [contents, ih, List.map_cons]

theorem fieldContents_eq (fields : List ObjectFieldNode) :
    fieldContents fields = fields.map ObjectFieldNode.content := by
  induction fields with
  | nil => rfl
  | cons field fields ih =>
      obtain ⟨name, value, loc⟩ := field
      rw [fieldContents, ih, List.map_cons]
      rfl

theorem areLiterals_iff {values : List ValueNode} :
    AreLiterals values ↔ ∀ value ∈ values, value.IsLiteral := by
  induction values with
  | nil => simp [AreLiterals]
  | cons value values ih => rw [AreLiterals, List.forall_mem_cons, ih]

theorem areFields_iff {fields : List ObjectFieldNode} :
    AreFields fields ↔ ∀ field ∈ fields, field.IsField := by
  induction fields with
  | nil => simp [AreFields]
  | cons field fields ih =>
      obtain ⟨name, value, loc⟩ := field
      rw [AreFields, List.forall_mem_cons, ih, ← and_assoc]
      rfl

/-! ## Delimiters -/

/-- What can stand behind a value: a blank, a comma, a line feed or a closing bracket. -/
def IsDelimiter (c : ℕ) : Prop := c = 32 ∨ c = 44 ∨ c = 10 ∨ c = 93

instance : DecidablePred IsDelimiter := fun c =>
  inferInstanceAs (Decidable (c = 32 ∨ c = 44 ∨ c = 10 ∨ c = 93))

section Texts

variable {text text' rest rest' : Text} {c : ℕ}

/-! ## Strings -/

def printedDigit (digit : ℕ) : ℕ := if digit < 58 then digit - 48 else digit - 55

/-- The code point of an escape sequence behind its backslash. -/
def unescape : Text → ℕ
  | 98 :: _ => 8
  | 116 :: _ => 9
  | 110 :: _ => 10
  | 102 :: _ => 12
  | 114 :: _ => 13
  | 34 :: _ => 34
  | 92 :: _ => 92
  | 117 :: _ :: _ :: high :: low :: _ => 16 * printedDigit high + printedDigit low
  | _ => 0

/-- The code point that is printed first. -/
def firstPrinted : Text → ℕ
  | [] => 0
  | c :: text => if c = 92 then unescape text else c

theorem printedDigit_eq {n : ℕ} (h : n < 16) :
    printedDigit (if n < 10 then 48 + n else 55 + n) = n := by
  unfold printedDigit
  split_ifs <;> omega

theorem firstPrinted_escapeCodePoint (c : ℕ) (rest : Text) :
    firstPrinted (escapeCodePoint c ++ rest) = c := by
  rw [escapeCodePoint]
  split_ifs with hb ht hn hf hr hquote hslash hcontrol
  · exact hb.symm
  · exact ht.symm
  · exact hn.symm
  · exact hf.symm
  · exact hr.symm
  · exact hquote.symm
  · exact hslash.symm
  · have hc : c < 256 := by
      simp only [Bool.or_eq_true, Bool.and_eq_true, decide_eq_true_iff] at hcontrol
      omega
    have hread : firstPrinted (escapeControl c ++ rest) =
        16 * printedDigit (if c / 16 < 10 then 48 + c / 16 else 55 + c / 16) +
          printedDigit (if c % 16 < 10 then 48 + c % 16 else 55 + c % 16) := rfl
    rw [hread, printedDigit_eq (by omega), printedDigit_eq (by omega)]
    omega
  · exact if_neg hslash

theorem head?_escapeCodePoint (c : ℕ) (rest : Text) :
    (escapeCodePoint c ++ rest).head? ≠ some 34 := by
  rw [escapeCodePoint]
  split_ifs with hb ht hn hf hr hquote
  all_goals intro h
  all_goals have hc := Option.some.inj h
  all_goals omega

/-- The closing quote is the first one that is not escaped. -/
theorem escaped_unique
    (h : text.flatMap escapeCodePoint ++ 34 :: rest =
      text'.flatMap escapeCodePoint ++ 34 :: rest') : text = text' ∧ rest = rest' := by
  induction text generalizing text' with
  | nil =>
      cases text' with
      | nil => exact ⟨rfl, (List.cons.inj h).2⟩
      | cons c text' =>
          rw [List.flatMap_cons, List.append_assoc] at h
          exact absurd (congrArg List.head? h).symm (head?_escapeCodePoint c _)
  | cons c text ih =>
      rw [List.flatMap_cons, List.append_assoc] at h
      cases text' with
      | nil => exact absurd (congrArg List.head? h) (head?_escapeCodePoint c _)
      | cons c' text' =>
          rw [List.flatMap_cons, List.append_assoc] at h
          have hfirst := congrArg firstPrinted h
          rw [firstPrinted_escapeCodePoint, firstPrinted_escapeCodePoint] at hfirst
          subst hfirst
          obtain ⟨rfl, hrest⟩ := ih (List.append_cancel_left h)
          exact ⟨rfl, hrest⟩

theorem printString_unique (h : printString text ++ rest = printString text' ++ rest') :
    text = text' ∧ rest = rest' := by
  simp only [printString, List.cons_append, List.append_assoc] at h
  exact escaped_unique (List.cons.inj h).2

/-! ## Block strings -/

/-- The lines without the blank ones at both ends. -/
def trimLines (lines : List Text) : List Text := (lines.dropWhile isBlank).rdropWhile isBlank

theorem trimLines_of_blank {lines : List Text} (h : ∀ line ∈ lines, isBlank line) :
    trimLines lines = [] := by
  rw [trimLines, List.dropWhile_eq_nil_iff.mpr h]
  rfl

theorem trimLines_append {before lines after : List Text} (hbefore : ∀ line ∈ before, isBlank line)
    (hafter : ∀ line ∈ after, isBlank line) (hsome : lines ≠ [])
    (hfirst : ∀ line ∈ lines.head?, isBlank line = false)
    (hlast : ∀ line ∈ lines.getLast?, isBlank line = false) :
    trimLines (before ++ (lines ++ after)) = lines := by
  have hdrop : (before ++ (lines ++ after)).dropWhile isBlank = lines ++ after := by
    rw [List.dropWhile_append_of_pos hbefore]
    obtain ⟨first, lines, rfl⟩ := List.exists_cons_of_ne_nil hsome
    rw [List.cons_append, List.dropWhile_cons_of_neg]
    simpa using hfirst
  have hafter' : ∀ line ∈ after.reverse, isBlank line := by simpa using hafter
  have hreverse : lines.reverse.dropWhile isBlank = lines.reverse := by
    obtain ⟨last, others, hlines⟩ := List.exists_cons_of_ne_nil (List.reverse_ne_nil_iff.mpr hsome)
    rw [hlines, List.dropWhile_cons_of_neg]
    have hmem : last ∈ lines.getLast? := by
      rw [← List.head?_reverse, hlines]
      rfl
    simpa using hlast last hmem
  rw [trimLines, hdrop, List.rdropWhile, List.reverse_append,
    List.dropWhile_append_of_pos hafter', hreverse, List.reverse_reverse]

/-- The printed lines are those of the value, with blank ones at the ends. -/
theorem IsBlockValue.spells {value : Text} (h : IsBlockValue value) :
    ∃ text line lines, printBlockString value = 34 :: 34 :: 34 :: text ∧
      SpellsBlock text line lines ∧ joinLines (trimLines (line :: lines)) = value := by
  obtain ⟨htext, hends⟩ := h
  obtain ⟨first, others, hlines⟩ := exists_splitOn value
  obtain ⟨text, blank, hprint, hblank, hspells⟩ := spells_printed 0 false htext hlines
  rw [indentRest_zero] at hprint
  have hself : indentLine 0 = id := funext fun _ => rfl
  rw [hself, List.map_id, List.map_id] at hspells
  have htrim : ∀ before : List Text, (∀ line ∈ before, isBlank line) →
      joinLines (trimLines (before ++ (first :: others ++ blank))) = value := by
    intro before hbefore
    rcases hends with rfl | ⟨hfirst, hlast⟩
    · obtain ⟨rfl, rfl⟩ := List.cons.inj hlines
      rw [trimLines_of_blank]
      · rfl
      · intro line hline
        rcases List.mem_append.mp hline with hline | hline
        · exact hbefore line hline
        · rcases List.mem_cons.mp hline with rfl | hline
          · rfl
          · exact hblank line hline
    · rw [hlines] at hfirst hlast
      rw [trimLines_append hbefore hblank (List.cons_ne_nil _ _) hfirst hlast, ← hlines,
        joinLines_splitOn]
  cases hopens : opensLine value false with
  | true =>
      rw [hopens, if_pos rfl] at hspells
      exact ⟨text, _, _, hprint, hspells, htrim [[]] (by simp [isBlank, leadingWhiteSpace])⟩
  | false =>
      rw [hopens, if_neg (by decide)] at hspells
      exact ⟨text, _, _, hprint, hspells, htrim [] (by simp)⟩

theorem printBlockString_unique {value value' : Text} (h : IsBlockValue value)
    (h' : IsBlockValue value')
    (heq : printBlockString value ++ rest = printBlockString value' ++ rest') :
    value = value' ∧ rest = rest' := by
  obtain ⟨text, line, lines, hprint, hspells, hvalue⟩ := h.spells
  obtain ⟨text', line', lines', hprint', hspells', hvalue'⟩ := h'.spells
  rw [hprint, hprint'] at heq
  obtain ⟨-, heq⟩ := List.cons.inj heq
  obtain ⟨-, heq⟩ := List.cons.inj heq
  obtain ⟨-, heq⟩ := List.cons.inj heq
  have hread := readBlockLines_of_spells hspells 0 0 rest
  have hread' := readBlockLines_of_spells hspells' 0 0 rest'
  simp only [List.append_eq] at heq
  rw [heq, hread'] at hread
  simp only [Except.ok.injEq, BlockLines.mk.injEq] at hread
  obtain ⟨rfl, rfl, -, -, rfl⟩ := hread
  exact ⟨hvalue.symm.trans hvalue', rfl⟩

/-! ## Lines -/

/-- Indented lines end in front of a line that is not indented. -/
theorem indentLines_unique {c c' : ℕ} (hc : c ≠ 32) (hc' : c' ≠ 32)
    (heq : indentLines text ++ 10 :: c :: rest = indentLines text' ++ 10 :: c' :: rest') :
    text = text' ∧ c :: rest = c' :: rest' := by
  have hcons : ∀ d (text : Text), indentLines (d :: text) =
      (if d = 10 then [10, 32, 32] else [d]) ++ indentLines text := fun d text => rfl
  induction text generalizing text' with
  | nil =>
      cases text' with
      | nil => exact ⟨rfl, (List.cons.inj heq).2⟩
      | cons d' text' =>
          rw [hcons] at heq
          split at heq
          · exact absurd (List.cons.inj (List.cons.inj heq).2).1 hc
          · next hd' => exact absurd (List.cons.inj heq).1.symm hd'
  | cons d text ih =>
      rw [hcons, List.append_assoc] at heq
      cases text' with
      | nil =>
          split at heq
          · exact absurd (List.cons.inj (List.cons.inj heq).2).1.symm hc'
          · next hd => exact absurd (List.cons.inj heq).1 hd
      | cons d' text' =>
          rw [hcons, List.append_assoc] at heq
          have hd : d = d' := by
            split at heq <;> split at heq <;> have := (List.cons.inj heq).1 <;> grind
          subst hd
          obtain ⟨rfl, hrest⟩ := ih (List.append_cancel_left heq)
          exact ⟨rfl, hrest⟩

end Texts

/-! ## Lists and objects -/

section Items

variable {α : Type} {write : α → Text} {content : α → α} {p : α → Prop} {items items' : List α}
  {rest rest' separator : Text}

/-- The texts begin with something else than a delimiter. -/
def Starts (write : α → Text) (p : α → Prop) : Prop :=
  ∀ a, p a → ∃ c text, write a = c :: text ∧ ¬IsDelimiter c

theorem Starts.join_eq (h : Starts write p) (hitems : ∀ a ∈ items, p a) (separator : Text) :
    join (items.map write) separator = separator.intercalate (items.map write) := by
  rw [join, List.filter_eq_self.mpr]
  intro text htext
  obtain ⟨a, ha, rfl⟩ := List.mem_map.mp htext
  obtain ⟨c, text, hwrite, -⟩ := h a (hitems a ha)
  rw [hwrite]
  rfl

/-- Joined texts can be read back. -/
theorem Starts.join_unique (h : Starts write p) (hseparator : IsSeparator separator)
    (hrest : Delimited IsDelimiter rest) (hrest' : Delimited IsDelimiter rest')
    (hstop : ¬separator <+: rest) (hstop' : ¬separator <+: rest')
    (hread : ∀ a ∈ items, Readable IsDelimiter write content p a)
    (hitems : ∀ a ∈ items, p a) (hitems' : ∀ a ∈ items', p a)
    (heq : join (items.map write) separator ++ rest =
      join (items'.map write) separator ++ rest') :
    items.map content = items'.map content ∧ rest = rest' := by
  rw [h.join_eq hitems, h.join_eq hitems'] at heq
  have hdelimited : Delimited IsDelimiter separator := by
    rcases hseparator with rfl | rfl <;> exact delimited_cons.mpr (by decide)
  have hsome : separator ≠ [] := by
    rcases hseparator with rfl | rfl <;> exact List.cons_ne_nil _ _
  exact intercalate_unique hdelimited hsome hrest hrest' hstop hstop' hread hitems' hitems h heq

theorem Starts.exists_join (h : Starts write p) {a : α} (hitems : ∀ b ∈ a :: items, p b)
    (separator : Text) :
    ∃ c text, join ((a :: items).map write) separator = c :: text ∧ ¬IsDelimiter c := by
  obtain ⟨c, text, hwrite, hc⟩ := h a (hitems a List.mem_cons_self)
  rw [h.join_eq hitems, List.map_cons, hwrite]
  cases items with
  | nil => exact ⟨c, text, by rw [List.map_nil, List.intercalate_singleton], hc⟩
  | cons b items => exact ⟨c, _, rfl, hc⟩

/-- The joined texts in lines of their own. -/
theorem Starts.lines_unique (h : Starts write p) {c : ℕ} (hc : c ≠ 32)
    (hread : ∀ a ∈ items, Readable IsDelimiter write content p a)
    (hitems : ∀ a ∈ items, p a) (hitems' : ∀ a ∈ items', p a)
    (heq : indentLines (join (items.map write) (str "\n")) ++ 10 :: c :: rest =
      indentLines (join (items'.map write) (str "\n")) ++ 10 :: c :: rest') :
    items.map content = items'.map content ∧ rest = rest' := by
  obtain ⟨hjoin, hrest⟩ := indentLines_unique hc hc heq
  have hwhole : join (items.map write) (str "\n") ++ [] =
      join (items'.map write) (str "\n") ++ [] := by rw [hjoin]
  have hcontent := (h.join_unique (.inr rfl) delimited_nil delimited_nil nofun nofun hread hitems
    hitems' hwhole).1
  exact ⟨hcontent, (List.cons.inj hrest).2⟩

theorem indent_cons (c : ℕ) (text : Text) :
    indent (c :: text) = 32 :: 32 :: indentLines (c :: text) := by
  rw [indent_of_ne_nil (List.cons_ne_nil c text)]
  rfl

/-- A list is printed in one line, or in lines of their own. -/
theorem Starts.printListValue_cases (h : Starts write p) (hitems : ∀ a ∈ items, p a) :
    printListValue (items.map write) = 91 :: (join (items.map write) (str ", ") ++ [93]) ∨
      printListValue (items.map write) =
        91 :: 10 :: 32 :: 32 :: (indentLines (join (items.map write) (str "\n")) ++ [10, 93]) := by
  rw [printListValue]
  split
  · next hlong =>
    cases items with
    | nil =>
        have hshort : ¬80 < (str "[" ++ join [] (str ", ") ++ str "]").length := by decide
        exact absurd hlong hshort
    | cons a items =>
        obtain ⟨c, text, hjoin, -⟩ := h.exists_join hitems (str "\n")
        rw [hjoin, indent_cons]
        exact .inr rfl
  · exact .inl rfl

/-- An object is printed in one line, or in lines of their own. -/
theorem Starts.printObjectValue_cases (h : Starts write p) (hitems : ∀ a ∈ items, p a) :
    printObjectValue (items.map write) =
        123 :: 32 :: (join (items.map write) (str ", ") ++ [32, 125]) ∨
      printObjectValue (items.map write) =
        123 :: 10 :: 32 :: 32 :: (indentLines (join (items.map write) (str "\n")) ++
          [10, 125]) := by
  rw [printObjectValue]
  split
  · next hlong =>
    cases items with
    | nil =>
        have hshort : ¬maxLineLength <
            (str "\x7b " ++ join [] (str ", ") ++ str " \x7d").length := by decide
        exact absurd hlong hshort
    | cons a items =>
        obtain ⟨c, text, hjoin, -⟩ := h.exists_join hitems (str "\n")
        rw [block, hjoin, indent_cons]
        exact .inr rfl
  · exact .inl rfl

/-- Joined texts in one line do not begin with a line feed. -/
theorem Starts.join_ne_lineFeed (h : Starts write p) (hitems : ∀ a ∈ items, p a)
    (separator text : Text) : join (items.map write) separator ++ 93 :: rest ≠ 10 :: text := by
  cases items with
  | nil => exact fun heq => absurd (List.cons.inj heq).1 (by decide)
  | cons a items =>
      obtain ⟨c, front, hjoin, hc⟩ := h.exists_join hitems separator
      rw [hjoin]
      rintro heq
      obtain ⟨rfl, -⟩ := List.cons.inj heq
      exact hc (by decide)

theorem Starts.printListValue_unique (h : Starts write p)
    (hread : ∀ a ∈ items, Readable IsDelimiter write content p a)
    (hitems : ∀ a ∈ items, p a) (hitems' : ∀ a ∈ items', p a)
    (heq : printListValue (items.map write) ++ rest =
      printListValue (items'.map write) ++ rest') :
    items.map content = items'.map content ∧ rest = rest' := by
  rcases h.printListValue_cases hitems with hprint | hprint <;>
    rcases h.printListValue_cases hitems' with hprint' | hprint' <;>
    rw [hprint, hprint'] at heq <;>
    simp only [List.cons_append, List.append_assoc, List.nil_append, List.cons.injEq,
      true_and] at heq
  · obtain ⟨hcontent, hrest⟩ := h.join_unique (.inl rfl) (delimited_cons.mpr (by decide))
      (delimited_cons.mpr (by decide)) (by simp [str]) (by simp [str]) hread hitems hitems' heq
    exact ⟨hcontent, (List.cons.inj hrest).2⟩
  · exact absurd heq (h.join_ne_lineFeed hitems _ _)
  · exact absurd heq.symm (h.join_ne_lineFeed hitems' _ _)
  · exact h.lines_unique (by decide) hread hitems hitems' heq

theorem Starts.printObjectValue_unique (h : Starts write p)
    (hread : ∀ a ∈ items, Readable IsDelimiter write content p a)
    (hitems : ∀ a ∈ items, p a) (hitems' : ∀ a ∈ items', p a)
    (heq : printObjectValue (items.map write) ++ rest =
      printObjectValue (items'.map write) ++ rest') :
    items.map content = items'.map content ∧ rest = rest' := by
  rcases h.printObjectValue_cases hitems with hprint | hprint <;>
    rcases h.printObjectValue_cases hitems' with hprint' | hprint' <;>
    rw [hprint, hprint'] at heq <;>
    simp only [List.cons_append, List.append_assoc, List.nil_append, List.cons.injEq,
      true_and] at heq
  · obtain ⟨hcontent, hrest⟩ := h.join_unique (.inl rfl) (delimited_cons.mpr (by decide))
      (delimited_cons.mpr (by decide)) (by simp [str]) (by simp [str]) hread hitems hitems' heq
    exact ⟨hcontent, (List.cons.inj (List.cons.inj hrest).2).2⟩
  · exact absurd heq.1 (by decide)
  · exact absurd heq.1 (by decide)
  · exact h.lines_unique (by decide) hread hitems hitems' heq

end Items

/-! ## Words -/

theorem IsName.notDelimiter {name : Text} (h : IsName name) : ∀ c ∈ name, ¬IsDelimiter c := by
  obtain ⟨c, rest, rfl, hstart, hcontinue⟩ := h
  intro d hd hdelimiter
  have hname : isNameContinue d := by
    rcases List.mem_cons.mp hd with rfl | hd
    · exact isNameContinue_of_start hstart
    · exact hcontinue d hd
  rcases hdelimiter with rfl | rfl | rfl | rfl <;> cases hname

theorem SpellsDigits.notDelimiter {text : Text} (h : SpellsDigits text) :
    ∀ c ∈ text, ¬IsDelimiter c := by
  intro c hc hdelimiter
  have hdigit := h.digits c hc
  rcases hdelimiter with rfl | rfl | rfl | rfl <;> cases hdigit

theorem SpellsNumber.notDelimiter {isFloat : Bool} {text : Text} (h : SpellsNumber isFloat text) :
    ∀ c ∈ text, ¬IsDelimiter c := by
  obtain ⟨hsign, hinteger, hfraction, hexponent⟩ := h
  simp only [List.forall_mem_append]
  refine ⟨⟨⟨?_, ?_⟩, ?_⟩, ?_⟩
  · rcases hsign with rfl | rfl <;> decide
  · rcases hinteger with rfl | ⟨hdigits, -⟩
    · decide
    · exact hdigits.notDelimiter
  · rcases hfraction with rfl | ⟨digits, rfl, hdigits⟩
    · nofun
    · exact List.forall_mem_cons.mpr ⟨by decide, hdigits.notDelimiter⟩
  · rcases hexponent with rfl | ⟨c, sign, digits, rfl, hc, hsign, hdigits⟩
    · nofun
    · refine List.forall_mem_cons.mpr ⟨by rcases hc with rfl | rfl <;> decide, ?_⟩
      refine List.forall_mem_append.mpr ⟨?_, hdigits.notDelimiter⟩
      rcases hsign with rfl | rfl | rfl <;> decide

/-- The text of a value that has no parts. -/
def ValueNode.word : ValueNode → Option Text
  | .variable node => some (36 :: node.name.value)
  | .int value _ => some value
  | .float value _ => some value
  | .boolean value _ => some (if value then str "true" else str "false")
  | .null _ => some (str "null")
  | .enum value _ => some value
  | _ => none

/-- The value of a word. -/
def wordContent (word : Text) : ValueNode :=
  if word = str "true" then .boolean true none
  else if word = str "false" then .boolean false none
  else if word = str "null" then .null none
  else if word.head? = some 36 then .variable { name := { value := word.tail } }
  else if word.head?.any isNameStart then .enum word none
  else match readNumber 0 word with
    | .ok (true, _, _) => .float word none
    | _ => .int word none

section Words

variable {value value' : ValueNode} {word : Text}

theorem wordContent_number {isFloat : Bool} (h : SpellsNumber isFloat word) :
    wordContent word = if isFloat then .float word none else .int word none := by
  have hread := readNumber_of_spells h separates_nil 0
  rw [List.append_nil] at hread
  obtain ⟨c, rest, rfl, hc⟩ := h.exists_cons
  have hfirst : c < 58 ∧ c ≠ 36 := by
    simp only [isDigit, Bool.and_eq_true, decide_eq_true_eq] at hc
    omega
  have hstart : isNameStart c = false := by
    simp [isNameStart, isLetter]
    omega
  have hword : ∀ d text, 58 ≤ d → c :: rest ≠ d :: text := by
    rintro d text hd heq
    obtain ⟨rfl, -⟩ := List.cons.inj heq
    omega
  have htrue : c :: rest ≠ str "true" := hword 116 (str "rue") (by decide)
  have hfalse : c :: rest ≠ str "false" := hword 102 (str "alse") (by decide)
  have hnull : c :: rest ≠ str "null" := hword 110 (str "ull") (by decide)
  rw [wordContent, if_neg htrue, if_neg hfalse, if_neg hnull, if_neg (by simpa using hfirst.2),
    if_neg (by simpa using hstart), hread]
  cases isFloat <;> rfl

theorem wordContent_eq (h : value.IsLiteral) (hword : value.word = some word) :
    wordContent word = value.content := by
  cases value with
  | «variable» node =>
      obtain rfl := Option.some.inj hword
      rfl
  | int text loc =>
      obtain rfl := Option.some.inj hword
      exact wordContent_number h
  | float text loc =>
      obtain rfl := Option.some.inj hword
      exact wordContent_number h
  | boolean b loc =>
      obtain rfl := Option.some.inj hword
      cases b <;> rfl
  | null loc =>
      obtain rfl := Option.some.inj hword
      rfl
  | «enum» text loc =>
      obtain rfl := Option.some.inj hword
      obtain ⟨⟨c, rest, rfl, hstart, -⟩, htrue, hfalse, hnull⟩ := h
      have hdollar : c ≠ 36 := by rintro rfl; cases hstart
      rw [wordContent, if_neg htrue, if_neg hfalse, if_neg hnull, if_neg (by simpa using hdollar),
        if_pos (by simpa using hstart)]
      rfl
  | string | list | object => cases hword

theorem printValue_of_word (hword : value.word = some word) : printValue value = word := by
  cases value <;> first | exact Option.some.inj hword | cases hword

theorem word_notDelimiter (h : value.IsLiteral) (hword : value.word = some word) :
    ∀ c ∈ word, ¬IsDelimiter c := by
  cases value with
  | «variable» node =>
      obtain rfl := Option.some.inj hword
      exact List.forall_mem_cons.mpr ⟨by decide, IsName.notDelimiter h⟩
  | int text loc | float text loc =>
      obtain rfl := Option.some.inj hword
      exact SpellsNumber.notDelimiter h
  | boolean b loc =>
      obtain rfl := Option.some.inj hword
      cases b <;> decide
  | null loc =>
      obtain rfl := Option.some.inj hword
      decide
  | «enum» text loc =>
      obtain rfl := Option.some.inj hword
      exact h.1.notDelimiter
  | string | list | object => cases hword

end Words

/-! ## Values -/

/-- The code point that opens a string, a list or an object. -/
def opening (c : ℕ) : Option ℕ := if c = 34 ∨ c = 91 ∨ c = 123 then some c else none

def ValueNode.opening : ValueNode → Option ℕ
  | .string _ => some 34
  | .list _ _ => some 91
  | .object _ _ => some 123
  | _ => none

theorem exists_word_iff {value : ValueNode} :
    (∃ word, value.word = some word) ↔ value.opening = none := by
  cases value <;> simp [ValueNode.word, ValueNode.opening]

theorem IsName.exists_first {name : Text} (h : IsName name) :
    ∃ c text, name = c :: text ∧ ¬IsDelimiter c ∧ opening c = none := by
  obtain ⟨c, rest, rfl, hstart, hcontinue⟩ := h
  refine ⟨c, rest, rfl, ?_, ?_⟩
  · exact IsName.notDelimiter ⟨c, rest, rfl, hstart, hcontinue⟩ c List.mem_cons_self
  · rw [opening, if_neg]
    rintro (rfl | rfl | rfl) <;> cases hstart

theorem SpellsNumber.exists_first {isFloat : Bool} {text : Text} (h : SpellsNumber isFloat text) :
    ∃ c rest, text = c :: rest ∧ ¬IsDelimiter c ∧ opening c = none := by
  have hplain := h.notDelimiter
  obtain ⟨c, rest, rfl, hc⟩ := h.exists_cons
  refine ⟨c, rest, rfl, hplain c List.mem_cons_self, ?_⟩
  rw [opening, if_neg]
  rintro (rfl | rfl | rfl) <;> simp [isDigit] at hc

def printObjectField (field : ObjectFieldNode) : Text :=
  printName field.name ++ str ": " ++ printValue field.value

theorem printObjectFields_eq (fields : List ObjectFieldNode) :
    printObjectFields fields = fields.map printObjectField := by
  induction fields with
  | nil => rfl
  | cons field fields ih =>
      obtain ⟨name, value, loc⟩ := field
      rw [printObjectFields, ih, List.map_cons]
      rfl

theorem printValues_eq (values : List ValueNode) : printValues values = values.map printValue := by
  induction values with
  | nil => rfl
  | cons value values ih => rw [printValues, ih, List.map_cons]

theorem starts_printObjectField : Starts printObjectField ObjectFieldNode.IsField := by
  rintro ⟨⟨name, nameLoc⟩, value, loc⟩ ⟨hname, -⟩
  obtain ⟨c, text, hfirst, hc, -⟩ := hname.exists_first
  refine ⟨c, text ++ str ": " ++ printValue value, ?_, hc⟩
  rw [printObjectField, printName, hfirst]
  rfl

/-- The first code point tells what is opened. -/
theorem exists_first {value : ValueNode} (h : value.IsLiteral) :
    ∃ c text, printValue value = c :: text ∧ ¬IsDelimiter c ∧ opening c = value.opening := by
  cases value with
  | «variable» node => exact ⟨36, _, rfl, by decide, rfl⟩
  | int text loc => exact SpellsNumber.exists_first h
  | float text loc => exact SpellsNumber.exists_first h
  | string node =>
      rw [printValue, printStringValue]
      split
      · exact ⟨34, _, rfl, by decide, rfl⟩
      · exact ⟨34, _, rfl, by decide, rfl⟩
  | boolean b loc =>
      cases b
      · exact ⟨102, _, rfl, by decide, rfl⟩
      · exact ⟨116, _, rfl, by decide, rfl⟩
  | null loc => exact ⟨110, _, rfl, by decide, rfl⟩
  | «enum» text loc => exact h.1.exists_first
  | list values loc =>
      rw [printValue, printListValue]
      split
      · exact ⟨91, _, rfl, by decide, rfl⟩
      · exact ⟨91, _, rfl, by decide, rfl⟩
  | object fields loc =>
      rw [printValue, printObjectFields_eq]
      rcases starts_printObjectField.printObjectValue_cases (areFields_iff.mp h)
        with hprint | hprint
      · exact ⟨123, _, hprint, by decide, rfl⟩
      · exact ⟨123, _, hprint, by decide, rfl⟩

theorem starts_printValue : Starts printValue ValueNode.IsLiteral := by
  intro value h
  obtain ⟨c, text, hprint, hc, -⟩ := exists_first h
  exact ⟨c, text, hprint, hc⟩

/-- Values with the same text open the same. -/
theorem opening_eq {value value' : ValueNode} {rest rest' : Text} (h : value.IsLiteral)
    (h' : value'.IsLiteral) (heq : printValue value ++ rest = printValue value' ++ rest') :
    value.opening = value'.opening := by
  obtain ⟨c, text, hprint, -, hopening⟩ := exists_first h
  obtain ⟨c', text', hprint', -, hopening'⟩ := exists_first h'
  rw [hprint, hprint'] at heq
  rw [← hopening, ← hopening', (List.cons.inj heq).1]

theorem readable_of_word {value : ValueNode} {word : Text} (h : value.IsLiteral)
    (hword : value.word = some word) :
    Readable IsDelimiter printValue ValueNode.content ValueNode.IsLiteral value := by
  intro value' h' rest rest' hrest hrest' heq
  have hopening := opening_eq h h' heq
  obtain ⟨word', hword'⟩ :=
    exists_word_iff.mpr (hopening.symm.trans (exists_word_iff.mp ⟨word, hword⟩))
  rw [printValue_of_word hword, printValue_of_word hword'] at heq
  obtain ⟨rfl, hrests⟩ := eq_of_notDelimiter (word_notDelimiter h hword)
    (word_notDelimiter h' hword') hrest hrest' heq
  exact ⟨(wordContent_eq h hword).symm.trans (wordContent_eq h' hword'), hrests⟩

/-- Three quotes open a block string. -/
theorem printString_ne_block {value value' rest rest' : Text} (hrest : Delimited IsDelimiter rest) :
    printString value ++ rest ≠ printBlockString value' ++ rest' := by
  intro heq
  have hprint : ∃ text, printBlockString value' = 34 :: 34 :: 34 :: text := by
    rw [printBlockString_eq]
    simp only [List.append_assoc]
    exact ⟨_, rfl⟩
  obtain ⟨text, hprint⟩ := hprint
  rw [hprint] at heq
  cases value with
  | nil =>
      obtain rfl := (List.cons.inj (List.cons.inj heq).2).2
      exact absurd (delimited_cons.mp hrest) (by decide)
  | cons c value =>
      have hquote := congrArg List.head? (List.cons.inj heq).2
      simp only [List.append_eq, List.flatMap_cons, List.append_assoc] at hquote
      exact head?_escapeCodePoint c _ hquote

theorem readable_string {node : StringValueNode} (h : (ValueNode.string node).IsLiteral) :
    Readable IsDelimiter printValue ValueNode.content ValueNode.IsLiteral (.string node) := by
  intro value' h' rest rest' hrest hrest' heq
  have hopening := opening_eq h h' heq
  cases value' <;> cases hopening
  rename_i node'
  rw [printValue, printValue, printStringValue, printStringValue] at heq
  rw [ValueNode.content, ValueNode.content]
  by_cases hblock : node.block = some true
  · by_cases hblock' : node'.block = some true
    · rw [if_pos hblock, if_pos hblock'] at heq
      obtain ⟨hvalue, hrests⟩ := printBlockString_unique (h hblock) (h' hblock') heq
      exact ⟨by simp only [hvalue, hblock, hblock'], hrests⟩
    · rw [if_pos hblock, if_neg hblock'] at heq
      exact absurd heq.symm (printString_ne_block hrest')
  · by_cases hblock' : node'.block = some true
    · rw [if_neg hblock, if_pos hblock'] at heq
      exact absurd heq (printString_ne_block hrest)
    · rw [if_neg hblock, if_neg hblock'] at heq
      obtain ⟨hvalue, hrests⟩ := printString_unique heq
      exact ⟨by simp only [hvalue, hblock, hblock'], hrests⟩

theorem readable_list {values : List ValueNode} {loc : Option Location}
    (h : (ValueNode.list values loc).IsLiteral) (hread : ∀ value ∈ values,
      Readable IsDelimiter printValue ValueNode.content ValueNode.IsLiteral value) :
    Readable IsDelimiter printValue ValueNode.content ValueNode.IsLiteral (.list values loc) := by
  intro value' h' rest rest' hrest hrest' heq
  have hopening := opening_eq h h' heq
  cases value' <;> cases hopening
  rename_i values' loc'
  rw [printValue, printValue, printValues_eq, printValues_eq] at heq
  obtain ⟨hcontents, hrests⟩ := starts_printValue.printListValue_unique hread
    (areLiterals_iff.mp h) (areLiterals_iff.mp h') heq
  refine ⟨?_, hrests⟩
  rw [ValueNode.content, ValueNode.content, contents_eq, contents_eq, hcontents]

theorem readable_object {fields : List ObjectFieldNode} {loc : Option Location}
    (h : (ValueNode.object fields loc).IsLiteral) (hread : ∀ field ∈ fields,
      Readable IsDelimiter printObjectField ObjectFieldNode.content ObjectFieldNode.IsField field) :
    Readable IsDelimiter printValue ValueNode.content ValueNode.IsLiteral (.object fields loc) := by
  intro value' h' rest rest' hrest hrest' heq
  have hopening := opening_eq h h' heq
  cases value' <;> cases hopening
  rename_i fields' loc'
  rw [printValue, printValue, printObjectFields_eq, printObjectFields_eq] at heq
  obtain ⟨hcontents, hrests⟩ := starts_printObjectField.printObjectValue_unique hread
    (areFields_iff.mp h) (areFields_iff.mp h') heq
  refine ⟨?_, hrests⟩
  rw [ValueNode.content, ValueNode.content, fieldContents_eq, fieldContents_eq, hcontents]

theorem readable_field {field : ObjectFieldNode} (h : field.IsField)
    (hread : Readable IsDelimiter printValue ValueNode.content ValueNode.IsLiteral field.value) :
    Readable IsDelimiter printObjectField ObjectFieldNode.content ObjectFieldNode.IsField
      field := by
  intro field' h' rest rest' hrest hrest' heq
  have hcolon : ∀ {name : Text}, IsName name → ∀ c ∈ name, ¬c = 58 := by
    rintro name ⟨d, text, rfl, hstart, hcontinue⟩ c hc rfl
    rcases List.mem_cons.mp hc with rfl | hc
    · cases hstart
    · cases hcontinue 58 hc
  simp only [printObjectField, List.append_assoc] at heq
  obtain ⟨hname, heq⟩ := eq_of_notDelimiter (hcolon h.1) (hcolon h'.1)
    (delimited_cons.mpr rfl) (delimited_cons.mpr rfl) heq
  obtain ⟨hvalue, hrests⟩ := hread field'.value h'.2 rest rest' hrest hrest'
    (List.cons.inj (List.cons.inj heq).2).2
  refine ⟨?_, hrests⟩
  rw [ObjectFieldNode.content, ObjectFieldNode.content, hname, hvalue]

mutual

/-- The text of a literal tells its content. -/
theorem readable_printValue : ∀ value : ValueNode, value.IsLiteral →
    Readable IsDelimiter printValue ValueNode.content ValueNode.IsLiteral value
  | .variable _, h => readable_of_word h rfl
  | .int _ _, h => readable_of_word h rfl
  | .float _ _, h => readable_of_word h rfl
  | .string _, h => readable_string h
  | .boolean _ _, h => readable_of_word h rfl
  | .null _, h => readable_of_word h rfl
  | .enum _ _, h => readable_of_word h rfl
  | .list values _, h => readable_list h (readable_printValues values h)
  | .object fields _, h => readable_object h (readable_printFields fields h)

theorem readable_printValues : ∀ values : List ValueNode, AreLiterals values → ∀ value ∈ values,
    Readable IsDelimiter printValue ValueNode.content ValueNode.IsLiteral value
  | [], _, _, hmem => nomatch hmem
  | value :: values, h, value', hmem => by
      rcases List.mem_cons.mp hmem with heq | hmem
      · rw [heq]
        exact readable_printValue value h.1
      · exact readable_printValues values h.2 value' hmem

theorem readable_printFields : ∀ fields : List ObjectFieldNode, AreFields fields → ∀ field ∈ fields,
    Readable IsDelimiter printObjectField ObjectFieldNode.content ObjectFieldNode.IsField field
  | [], _, _, hmem => nomatch hmem
  | ⟨name, value, loc⟩ :: fields, h, field, hmem => by
      rcases List.mem_cons.mp hmem with heq | hmem
      · rw [heq]
        exact readable_field ⟨h.1, h.2.1⟩ (readable_printValue value h.2.1)
      · exact readable_printFields fields h.2.2 field hmem

end

/-- Literals with the same text are the same, but for the locations. -/
theorem content_eq_of_printValue_eq {value value' : ValueNode} (h : value.IsLiteral)
    (h' : value'.IsLiteral) (heq : printValue value = printValue value') :
    value.content = value'.content :=
  (readable_printValue value h).content_eq h' heq

mutual

/-- Locations are not printed. -/
theorem printValue_content : ∀ value : ValueNode, printValue value.content = printValue value
  | .variable _ | .int _ _ | .float _ _ | .boolean _ _ | .null _ | .enum _ _ => rfl
  | .string node => by
      rw [ValueNode.content, printValue, printValue, printStringValue, printStringValue]
      by_cases hblock : node.block = some true
      · simp [hblock]
      · simp [hblock]
  | .list values _ => by
      rw [ValueNode.content, printValue, printValue, printValues_contents values]
  | .object fields _ => by
      rw [ValueNode.content, printValue, printValue, printObjectFields_contents fields]

theorem printValues_contents : ∀ values : List ValueNode,
    printValues (contents values) = printValues values
  | [] => rfl
  | value :: values => by
      rw [contents, printValues, printValues, printValue_content value, printValues_contents values]

theorem printObjectFields_contents : ∀ fields : List ObjectFieldNode,
    printObjectFields (fieldContents fields) = printObjectFields fields
  | [] => rfl
  | ⟨name, value, _⟩ :: fields => by
      rw [fieldContents, printObjectFields, printObjectFields, printValue_content value,
        printObjectFields_contents fields]
      rfl

end

end GraphqlCore.Language
