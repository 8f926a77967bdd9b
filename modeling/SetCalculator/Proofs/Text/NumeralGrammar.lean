import SetCalculator.Proofs.Text.Numerals
import SetCalculator.Text.Numeral

/-!
# The integers that are read are those of the numerals

Reading goes through a text from the left and multiplies what it has by ten at
every digit; the grammar counts each digit by its place. The two values agree,
so a text has a value exactly when it is a numeral, and has the right one. What
is cut off before reading is what may stand around a numeral, because no
character of a numeral is blank. The limits of 64 bits are those that reading
compares with.
-/

namespace SetCalculator.Text

/-! ## Blanks around a numeral -/

theorem trim_between {before core after : List Char}
    (hbefore : ∀ c ∈ before, isBlank c = true)
    (hafter : ∀ c ∈ after, isBlank c = true) (hne : core ≠ [])
    (hcore : ∀ c ∈ core, isBlank c = false) :
    trim (before ++ (core ++ after)) = core := by
  have hfirst : (core ++ after).dropWhile isBlank = core ++ after := by
    refine dropWhile_blank_of_head? fun c hc => hcore c ?_
    rw [List.head?_append_of_ne_nil _ hne] at hc
    exact List.mem_of_mem_head? hc
  have hlast : core.reverse.dropWhile isBlank = core.reverse :=
    dropWhile_blank_of_head? fun c hc =>
      hcore c (List.mem_reverse.1 (List.mem_of_mem_head? hc))
  have hblank : ∀ c ∈ after.reverse, isBlank c = true :=
    fun c hc => hafter c (List.mem_reverse.1 hc)
  rw [trim, List.dropWhile_append_of_pos hbefore, hfirst, List.reverse_append,
    List.dropWhile_append_of_pos hblank, hlast, List.reverse_reverse]

/-- What is cut off at the two ends is blank. -/
theorem exists_around_trim (text : List Char) :
    ∃ before after, text = before ++ (trim text ++ after) ∧
      (∀ c ∈ before, isBlank c = true) ∧ ∀ c ∈ after, isBlank c = true := by
  let rest := text.dropWhile isBlank
  have hrest :
      rest = trim text ++ (rest.reverse.takeWhile isBlank).reverse := by
    rw [trim, ← List.reverse_append, List.takeWhile_append_dropWhile,
      List.reverse_reverse]
  refine ⟨text.takeWhile isBlank, (rest.reverse.takeWhile isBlank).reverse,
    ?_, fun c hc => List.mem_takeWhile_imp hc,
    fun c hc => List.mem_takeWhile_imp (List.mem_reverse.1 hc)⟩
  rw [← hrest]
  exact List.takeWhile_append_dropWhile.symm

theorem IsDigits.all_isDigit {digits : List Char} (h : IsDigits digits) :
    ∀ c ∈ digits, c.isDigit = true :=
  fun c hc => isDigit_iff.2 (h.2 c hc)

/-- A numeral is not empty and holds no blank. -/
theorem Numeral.not_blank {text : List Char} {n : Int} (h : Numeral text n) :
    text ≠ [] ∧ ∀ c ∈ text, isBlank c = false := by
  have hdigits : ∀ {digits}, IsDigits digits →
      ∀ c ∈ digits, isBlank c = false :=
    fun hdigits c hc => Decimal.isBlank_of_isDigit (hdigits.all_isDigit c hc)
  cases h with
  | unsigned isDigits => exact ⟨isDigits.1, hdigits isDigits⟩
  | plus isDigits | minus isDigits =>
      exact ⟨List.cons_ne_nil _ _,
        List.forall_mem_cons.2 ⟨by decide, hdigits isDigits⟩⟩

/-! ## Values -/

/-- Counting by places is multiplying by ten at every digit. -/
theorem placeValue_eq (digits : List Char) :
    placeValue digits = Nat.ofDigitChars 10 digits 0 := by
  induction digits with
  | nil => rfl
  | cons c rest ih =>
      have hstart := @Nat.ofDigitChars_eq_ofDigitChars_zero rest
        (10 * 0 + digitValue c)
      rw [placeValue, ih, Nat.ofDigitChars_cons]
      rw [digitValue] at hstart ⊢
      rw [hstart, Nat.mul_zero, Nat.zero_add, Nat.pow_eq, Nat.mul_comm]

namespace Decimal

theorem magnitude?_eq_some_iff {digits : List Char} {m : Nat} :
    magnitude? digits = some m ↔ IsDigits digits ∧ m = placeValue digits := by
  have hdigits : IsDigits digits ↔
      ¬ (digits.isEmpty || !digits.all Char.isDigit) = true := by
    simp [IsDigits, ← isDigit_iff]
  rw [magnitude?, ← placeValue_eq, hdigits]
  split
  · next hbad =>
      refine ⟨?_, fun h => absurd hbad h.1⟩
      intro h
      cases h
  · next hgood =>
      rw [Option.some.injEq]
      exact ⟨fun h => ⟨hgood, h.symm⟩, fun h => h.2.symm⟩

/-- A text has the value of the numeral that it is. -/
theorem value?_eq_some_iff {text : List Char} {n : Int} :
    value? text = some n ↔ Numeral text n := by
  refine ⟨?_, ?_⟩
  · intro h
    rw [value?.eq_def] at h
    split at h
    all_goals
      obtain ⟨m, hm, rfl⟩ := Option.map_eq_some_iff.1 h
      obtain ⟨hdigits, rfl⟩ := magnitude?_eq_some_iff.1 hm
    · exact .plus hdigits
    · exact .minus hdigits
    · exact .unsigned hdigits
  · intro h
    cases h with
    | unsigned isDigits =>
        -- Without a sign the text is taken for digits, because it starts with
        -- one.
        obtain ⟨first, rest, rfl⟩ := List.exists_cons_of_ne_nil isDigits.1
        rw [value?_of_isDigit (isDigits.all_isDigit _ List.mem_cons_self),
          magnitude?_eq_some_iff.2 ⟨isDigits, rfl⟩]
        rfl
    | plus isDigits =>
        rw [value?, magnitude?_eq_some_iff.2 ⟨isDigits, rfl⟩]
        rfl
    | minus isDigits =>
        rw [value?, magnitude?_eq_some_iff.2 ⟨isDigits, rfl⟩]
        rfl

theorem fitsIn64_iff {n : Int} :
    FitsIn64 n ↔ least ≤ n ∧ n ≤ greatest := Iff.rfl

theorem read?_eq_some_iff_numeral {text : List Char} {n : Int} :
    read? text = some n ↔ Numeral text n ∧ FitsIn64 n := by
  rw [read?_eq_some_iff, value?_eq_some_iff, fitsIn64_iff]

end Decimal

end SetCalculator.Text

namespace SetCalculator.Source

/-- A line is read as the integer that it holds, if that fits in 64 bits. -/
theorem integer?_eq_some_iff {line : String} {n : Int} :
    integer? line = some n ↔ Text.HoldsNumeral line n ∧ Text.FitsIn64 n := by
  rw [integer?, Text.Decimal.read?_eq_some_iff_numeral]
  refine and_congr_left fun _ => ⟨?_, ?_⟩
  · intro h
    obtain ⟨before, after, hline, hbefore, hafter⟩ :=
      Text.exists_around_trim line.toList
    exact ⟨before, _, after, hline, hbefore, hafter, h⟩
  · intro h
    obtain ⟨before, numeral, after, hline, hbefore, hafter, hnumeral⟩ := h
    obtain ⟨hne, hblank⟩ := hnumeral.not_blank
    rw [hline, Text.trim_between hbefore hafter hne hblank]
    exact hnumeral

end SetCalculator.Source
