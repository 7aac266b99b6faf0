import GraphqlCore.Utilities.LexicalDistance

/-!
# When suggestions are given

A list of suggestions is a selection of the options without duplicates.  It is not given if
the rows are too small for some option, or if a suggested option has more digits in a row
than can be converted to a number.
-/

namespace GraphqlCore.Suggestion

/-! ## Digits -/

section Digits

variable (methods : StringMethods)

/-- All digits in a row can be converted. -/
def DigitsConvertible (option : Text) : Prop :=
  ∀ run, run <:+: option → (∀ c ∈ run, isDecimal methods c = true) →
    isTooLong methods run = false

/-- The parts with digits. -/
def digitParts : Bool → List Text → List Text
  | _, [] => []
  | true, part :: rest => part :: digitParts false rest
  | false, _ :: rest => digitParts true rest

variable {methods}

theorem isTooLong_nil : isTooLong methods [] = false := by
  unfold isTooLong
  split <;> rfl

theorem isTooLong_of_length_le {run run' : Text} (h : isTooLong methods run' = false)
    (hle : run.length ≤ run'.length) : isTooLong methods run = false := by
  unfold isTooLong at h ⊢
  split
  · next limit hlimit =>
    simp only [hlimit, decide_eq_false_iff_not] at h ⊢
    omega
  · rfl

theorem exists_parseNumber_iff {part : Text} :
    (∃ n, parseNumber methods part = .ok n) ↔ isTooLong methods part = false := by
  unfold parseNumber
  split
  · next h => simp [h]
  · next h => simp [h]

/-- The key is made of the numbers of the parts with digits. -/
theorem exists_keyParts_iff {digits : Bool} {parts : List Text} :
    (∃ key, keyParts methods digits parts = .ok key) ↔
      ∀ part ∈ digitParts digits parts, isTooLong methods part = false := by
  induction parts generalizing digits with
  | nil => exact ⟨fun _ => by simp [digitParts], fun _ => ⟨[], rfl⟩⟩
  | cons part rest ih =>
      cases digits with
      | false =>
          have hrest := @ih true
          rw [digitParts, ← hrest]
          cases hkey : keyParts methods true rest <;>
            simp [keyParts, hkey, bind, Except.bind, pure, Except.pure]
      | true =>
          have hrest := @ih false
          rw [digitParts, List.forall_mem_cons, ← hrest, ← exists_parseNumber_iff]
          cases hnumber : parseNumber methods part <;>
            cases hkey : keyParts methods false rest <;>
              simp [keyParts, hnumber, hkey, bind, Except.bind, pure, Except.pure]

/-- Items in a row are part of one of the lists if both the last item of the first list and
the first one of the second list cannot be among them. -/
theorem infix_of_append {α : Type} {p : α → Prop} {run l l' : List α} {c : α}
    (hends : p c → ∀ a ∈ l, ¬p a) (hrun : ∀ a ∈ run, p a) (h : run <:+: l ++ c :: l') :
    run <:+: l ∨ run <:+: c :: l' := by
  rcases List.infix_append_iff_ne_nil.mp h with
    hleft | hright | ⟨run₁, run₂, hne₁, hne₂, rfl, hsuffix, hprefix⟩
  · exact .inl hleft
  · exact .inr hright
  · obtain ⟨a, run₁, rfl⟩ := List.exists_cons_of_ne_nil hne₁
    obtain ⟨c', run₂, rfl⟩ := List.exists_cons_of_ne_nil hne₂
    obtain ⟨rfl, -⟩ := List.cons_prefix_cons.mp hprefix
    exact absurd (hrun a List.mem_cons_self)
      (hends (hrun c' (by simp)) a (hsuffix.subset List.mem_cons_self))

/-- All or none of the characters of this text are digits. -/
theorem digitsConvertible_iff {digits : Bool} {part : Text}
    (hpart : ∀ c ∈ part, isDecimal methods c = digits) :
    DigitsConvertible methods part ↔ (digits = true → isTooLong methods part = false) := by
  constructor
  · rintro h rfl
    exact h part List.infix_rfl hpart
  · intro h run hrun hdigits
    cases digits with
    | true => exact isTooLong_of_length_le (h rfl) hrun.length_le
    | false =>
        cases run with
        | nil => exact isTooLong_nil
        | cons c run =>
            have hdigit := hdigits c List.mem_cons_self
            rw [hpart c (hrun.subset List.mem_cons_self)] at hdigit
            cases hdigit

theorem digitsConvertible_append {part rest : Text} {c : ℕ}
    (hends : isDecimal methods c = true → ∀ c' ∈ part, ¬isDecimal methods c' = true) :
    DigitsConvertible methods (part ++ c :: rest) ↔
      DigitsConvertible methods part ∧ DigitsConvertible methods (c :: rest) := by
  constructor
  · exact fun h => ⟨fun run hrun => h run (hrun.trans List.infix_append_left),
      fun run hrun => h run (hrun.trans List.infix_append_right)⟩
  · rintro ⟨hpart, hrest⟩ run hrun hdigits
    exact (infix_of_append hends hdigits hrun).elim (fun h => hpart run h hdigits)
      (fun h => hrest run h hdigits)

theorem forall_digitParts_cons {digits : Bool} {part : Text} {parts : List Text} :
    (∀ part' ∈ digitParts digits (part :: parts), isTooLong methods part' = false) ↔
      (digits = true → isTooLong methods part = false) ∧
        ∀ part' ∈ digitParts (!digits) parts, isTooLong methods part' = false := by
  cases digits <;> simp [digitParts]

/-- The parts with digits are the longest runs. -/
theorem forall_digitParts_iff {digits : Bool} {part option : Text}
    (hpart : ∀ c ∈ part, isDecimal methods c = digits) :
    (∀ part' ∈ digitParts digits (splitNumbers methods digits part option),
        isTooLong methods part' = false) ↔ DigitsConvertible methods (part ++ option) := by
  induction option generalizing digits part with
  | nil =>
      rw [List.append_nil, digitsConvertible_iff hpart, splitNumbers, forall_digitParts_cons]
      simp [digitParts]
  | cons c rest ih =>
      rw [splitNumbers]
      split
      · next hc =>
        have hpart' : ∀ c' ∈ part ++ [c], isDecimal methods c' = digits := by
          simpa [or_imp, forall_and, hc] using hpart
        rw [ih hpart', List.append_assoc]
        rfl
      · next hc =>
        have hc' : ∀ c' ∈ [c], isDecimal methods c' = !digits := by
          simpa using Bool.eq_not_of_ne hc
        have hends : isDecimal methods c = true → ∀ c' ∈ part, ¬isDecimal methods c' = true := by
          intro hdecimal c' hmem
          rw [hpart c' hmem]
          exact fun h => hc (hdecimal.trans h.symm)
        rw [forall_digitParts_cons, ih hc', digitsConvertible_append hends,
          digitsConvertible_iff hpart]
        rfl

theorem digitParts_append_nil {digits : Bool} {parts : List Text} {part : Text}
    (h : part ∈ digitParts digits (parts ++ [[]])) :
        part ∈ digitParts digits parts ∨ part = [] := by
  induction parts generalizing digits with
  | nil => cases digits <;> simp_all [digitParts]
  | cons first rest ih => cases digits <;> grind [digitParts]

theorem mem_digitParts_append {digits : Bool} {parts more : List Text} {part : Text}
    (h : part ∈ digitParts digits parts) : part ∈ digitParts digits (parts ++ more) := by
  induction parts generalizing digits with
  | nil => cases digits <;> cases h
  | cons first rest ih => cases digits <;> grind [digitParts]

/-- A comparison key can be made if all digits in a row can be converted. -/
theorem exists_naturalComparisonKey_iff {option : Text} :
    (∃ key, naturalComparisonKey methods option = .ok key) ↔ DigitsConvertible methods option := by
  have hparts : (∀ part ∈ digitParts false (splitNumbers methods false [] option),
      isTooLong methods part = false) ↔ DigitsConvertible methods option :=
    forall_digitParts_iff nofun
  rw [naturalComparisonKey, exists_keyParts_iff, ← hparts]
  split
  · constructor
    · exact fun h part hpart => h part (mem_digitParts_append hpart)
    · intro h part hpart
      rcases digitParts_append_nil hpart with hmem | rfl
      · exact h part hmem
      · exact isTooLong_nil
  · exact Iff.rfl

end Digits

/-! ## Options -/

section Options

variable {methods : StringMethods} {input option : Text} {options : List Text} {threshold : ℤ}

/-- The option is suggested if it is close to the input. -/
def IsClose (methods : StringMethods) (input option : Text) (threshold : ℤ) : Prop :=
  input = option ∨ methods.lower input = methods.lower option ∨
    (StringAlignment.distance (methods.lower input) (methods.lower option) : ℤ) ≤ threshold

theorem exists_optionDistance_iff :
    (∃ distance, optionDistance methods input option threshold = some distance) ↔
      IsClose methods input option threshold := by
  unfold optionDistance IsClose upTo
  by_cases heq : input = option
  · simp [heq]
  · by_cases hlower : methods.lower input = methods.lower option
    · simp [heq, hlower]
    · simp [heq, hlower]

theorem mem_keys_set {optionsByDistance : Dict Text ℕ} {distance : ℕ} {option option' : Text} :
    option' ∈ (optionsByDistance.set option distance).keys ↔
      option' ∈ optionsByDistance.keys ∨ option' = option := by
  by_cases hmem : option ∈ optionsByDistance.keys
  · rw [Dict.keys_set_of_mem hmem]
    exact ⟨.inl, fun h => h.elim id fun heq => heq ▸ hmem⟩
  · rw [Dict.keys_set_of_not_mem hmem]
    simp

/-- One step of the loop over the options. -/
theorem measureOption_spec (optionsByDistance : Dict Text ℕ) {lexicalDistance : LexicalDistance}
    (h : Measures methods input lexicalDistance)
    (hin : ¬OutOfRange methods input option threshold) :
    ∃ optionsByDistance' lexicalDistance',
      measureOption methods threshold (optionsByDistance, lexicalDistance) option =
        .ok (optionsByDistance', lexicalDistance') ∧
      Measures methods input lexicalDistance' ∧
      ∀ option', option' ∈ optionsByDistance'.keys ↔ option' ∈ optionsByDistance.keys ∨
        option' = option ∧ IsClose methods input option threshold := by
  obtain ⟨lexicalDistance', hmeasure, h'⟩ := h.measure hin
  rw [← exists_optionDistance_iff, measureOption, hmeasure]
  cases optionDistance methods input option threshold with
  | none => exact ⟨optionsByDistance, lexicalDistance', rfl, h', by simp⟩
  | some distance =>
      refine ⟨optionsByDistance.set option distance, lexicalDistance', rfl, h', fun option' => ?_⟩
      rw [mem_keys_set]
      simp

/-- The loop over the options finds those that are close. -/
theorem measureOptions_spec (optionsByDistance : Dict Text ℕ) {lexicalDistance : LexicalDistance}
    (h : Measures methods input lexicalDistance)
    (hin : ∀ option ∈ options, ¬OutOfRange methods input option threshold) :
    ∃ optionsByDistance' lexicalDistance',
      options.foldlM (measureOption methods threshold) (optionsByDistance, lexicalDistance) =
        .ok (optionsByDistance', lexicalDistance') ∧
      ∀ option, option ∈ optionsByDistance'.keys ↔ option ∈ optionsByDistance.keys ∨
        option ∈ options ∧ IsClose methods input option threshold := by
  induction options generalizing optionsByDistance lexicalDistance with
  | nil => exact ⟨optionsByDistance, lexicalDistance, rfl, by simp⟩
  | cons option rest ih =>
      rw [List.forall_mem_cons] at hin
      obtain ⟨optionsByDistance₁, lexicalDistance₁, hstep, h₁, hkeys₁⟩ :=
        measureOption_spec optionsByDistance h hin.1
      obtain ⟨optionsByDistance₂, lexicalDistance₂, hrun, hkeys₂⟩ := ih optionsByDistance₁ h₁ hin.2
      refine ⟨optionsByDistance₂, lexicalDistance₂, ?_, fun option' => ?_⟩
      · rw [List.foldlM_cons, hstep]
        exact hrun
      · rw [hkeys₂, hkeys₁, List.mem_cons]
        grind

/-- The loop over the options raises an error if the rows are too small for one of them. -/
theorem measureOptions_outside {optionsByDistance : Dict Text ℕ}
    {lexicalDistance : LexicalDistance} (h : Measures methods input lexicalDistance)
    (hout : ∃ option ∈ options, OutOfRange methods input option threshold) :
    options.foldlM (measureOption methods threshold) (optionsByDistance, lexicalDistance) =
      .error .indexError := by
  induction options generalizing optionsByDistance lexicalDistance with
  | nil =>
      obtain ⟨_, hmem, -⟩ := hout
      cases hmem
  | cons option rest ih =>
      rw [List.foldlM_cons]
      by_cases hfirst : OutOfRange methods input option threshold
      · rw [measureOption, h.measure_outside hfirst]
        rfl
      · obtain ⟨optionsByDistance₁, lexicalDistance₁, hstep, h₁, -⟩ :=
          measureOption_spec optionsByDistance h hfirst
        rw [hstep]
        refine ih h₁ ?_
        obtain ⟨option', hmem, hout'⟩ := hout
        rcases List.mem_cons.mp hmem with rfl | hmem
        · exact absurd hout' hfirst
        · exact ⟨option', hmem, hout'⟩

theorem withKey_fst {entry : Text × ℕ} {keyed : Text × ℕ × List (ℕ × Text)}
    (h : withKey methods entry = .ok keyed) : keyed.1 = entry.1 := by
  unfold withKey at h
  cases hkey : naturalComparisonKey methods entry.1 with
  | error e =>
      rw [hkey] at h
      cases h
  | ok key =>
      rw [hkey] at h
      cases h
      rfl

theorem exists_withKey_iff {entry : Text × ℕ} :
    (∃ keyed, withKey methods entry = .ok keyed) ↔ DigitsConvertible methods entry.1 := by
  rw [← exists_naturalComparisonKey_iff, withKey]
  cases naturalComparisonKey methods entry.1 with
  | error e => exact ⟨nofun, nofun⟩
  | ok key => exact ⟨fun _ => ⟨key, rfl⟩, fun _ => ⟨_, rfl⟩⟩

/-- The suggested options are sorted by keys unless one of them has none. -/
theorem exists_mapM_withKey_iff {entries : List (Text × ℕ)} :
    (∃ keyed, entries.mapM (withKey methods) = .ok keyed) ↔
      ∀ entry ∈ entries, DigitsConvertible methods entry.1 := by
  induction entries with
  | nil => exact ⟨fun _ => nofun, fun _ => ⟨[], rfl⟩⟩
  | cons entry rest ih =>
      rw [List.forall_mem_cons, ← ih, ← exists_withKey_iff, List.mapM_cons]
      cases withKey methods entry with
      | error e => exact ⟨nofun, nofun⟩
      | ok keyed =>
          cases rest.mapM (withKey methods) with
          | error e => exact ⟨nofun, nofun⟩
          | ok rest' => exact ⟨fun _ => ⟨⟨keyed, rfl⟩, rest', rfl⟩, fun _ => ⟨keyed :: rest', rfl⟩⟩

theorem map_fst_mapM_withKey {entries : List (Text × ℕ)}
    {keyed : List (Text × ℕ × List (ℕ × Text))} (h : entries.mapM (withKey methods) = .ok keyed) :
    keyed.map Prod.fst = entries.map Prod.fst := by
  induction entries generalizing keyed with
  | nil =>
      cases h
      rfl
  | cons entry rest ih =>
      rw [List.mapM_cons] at h
      cases hentry : withKey methods entry with
      | error e =>
          rw [hentry] at h
          cases h
      | ok keyedEntry =>
          cases hrest : rest.mapM (withKey methods) with
          | error e =>
              rw [hentry, hrest] at h
              cases h
          | ok keyedRest =>
              rw [hentry, hrest] at h
              cases h
              rw [List.map_cons, List.map_cons, withKey_fst hentry, ih hrest]

/-- The suggestions are the options that are close. -/
theorem map_fst_sortBy_perm {optionsByDistance : Dict Text ℕ}
    {keyed : List (Text × ℕ × List (ℕ × Text))}
    (le : ℕ × List (ℕ × Text) → ℕ × List (ℕ × Text) → Bool)
    (h : optionsByDistance.items.mapM (withKey methods) = .ok keyed) :
    ((sortBy le Prod.snd keyed).map Prod.fst).Perm optionsByDistance.keys := by
  rw [Dict.keys, ← map_fst_mapM_withKey h]
  exact (sortBy_perm le Prod.snd keyed).map Prod.fst

end Options

/-- Suggestions are a selection of the options without duplicates, unless an option is
compared for which the rows are too small, or one is close that has too many digits in a
row. -/
theorem suggestionList_selects_iff (methods : StringMethods) (input : Text)
    (options : List Text) :
    (∃ suggestions, suggestionList methods input options = .ok suggestions ∧
        suggestions.Nodup ∧ ∀ option ∈ suggestions, option ∈ options) ↔
      (∀ option ∈ options, ¬OutOfRange methods input option (thresholdOf input)) ∧
        ∀ option ∈ options, IsClose methods input option (thresholdOf input) →
          DigitsConvertible methods option := by
  have hinit := measures_init methods input
  by_cases hin : ∀ option ∈ options, ¬OutOfRange methods input option (thresholdOf input)
  · obtain ⟨optionsByDistance, lexicalDistance, hrun, hkeys⟩ :=
      measureOptions_spec Dict.empty hinit hin
    have hmem : ∀ option, option ∈ optionsByDistance.keys ↔
        option ∈ options ∧ IsClose methods input option (thresholdOf input) := by
      simpa [Dict.keys, Dict.empty] using hkeys
    have hclose : (∀ option ∈ options, IsClose methods input option (thresholdOf input) →
        DigitsConvertible methods option) ↔
          ∀ entry ∈ optionsByDistance.items, DigitsConvertible methods entry.1 := by
      constructor
      · intro h entry hentry
        obtain ⟨hoption, hclose⟩ := (hmem entry.1).mp (List.mem_map_of_mem hentry)
        exact h entry.1 hoption hclose
      · intro h option hoption hclose
        obtain ⟨entry, hentry, rfl⟩ := List.mem_map.mp ((hmem option).mpr ⟨hoption, hclose⟩)
        exact h entry hentry
    rw [and_iff_right hin, hclose, ← exists_mapM_withKey_iff, suggestionList, hrun]
    cases hmapM : optionsByDistance.items.mapM (withKey methods) with
    | error e =>
        simp only [bind, Except.bind, hmapM]
        exact iff_of_false (by simp) (by simp)
    | ok keyed =>
        have hperm := map_fst_sortBy_perm (pairLe (fun n m => decide (n ≤ m)) keyLe) hmapM
        simp only [bind, Except.bind, hmapM]
        refine iff_of_true ⟨_, rfl, hperm.nodup_iff.mpr optionsByDistance.nodup_keys, ?_⟩
          ⟨keyed, rfl⟩
        exact fun option hoption => ((hmem option).mp (hperm.mem_iff.mp hoption)).1
  · have hout : ∃ option ∈ options, OutOfRange methods input option (thresholdOf input) := by
      simpa using hin
    rw [suggestionList, measureOptions_outside hinit hout]
    exact iff_of_false (by simp [bind, Except.bind]) fun h => hin h.1

/-- String methods that know a letter whose lower-case form has two characters. -/
def dottedMethods : StringMethods where
  lower := List.flatMap fun c => if c = 0x130 then [0x69, 0x307] else asciiMethods.lower [c]
  decimal := asciiMethods.decimal
  maxStrDigits := asciiMethods.maxStrDigits

/-- The rows for one character are too small for the two characters of its lower-case
form. -/
theorem suggestionList_dotted :
    ¬∃ suggestions, suggestionList dottedMethods [0x130] [str "abc"] = .ok suggestions := by
  have herror : suggestionList dottedMethods [0x130] [str "abc"] = .error .indexError := rfl
  rw [herror]
  nofun

end GraphqlCore.Suggestion
