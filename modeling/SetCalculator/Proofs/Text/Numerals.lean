import SetCalculator.Proofs.Text.Lines
import SetCalculator.Proofs.Text.Tokens
import SetCalculator.Source.Integers

/-!
# Integers are read back as they were written

What is written for an integer is a word: digits, with a sign in front of a
negative one. So nothing is trimmed from it and no line ends inside it, and the
value of its digits is the integer. Reading adds one condition, that the value
fits in 64 bits, and everything that was ever read fits.
-/

namespace SetCalculator.Text

/-! ## Words on lines -/

theorem IsWord.oneLine {word : String} (h : IsWord word) : OneLine word := by
  intro hmem
  cases h.2 _ hmem

theorem IsWord.isPlainLine {word : String} (h : IsWord word) :
    IsPlainLine word := by
  refine ⟨h.oneLine, fun hlast => ?_⟩
  cases h.2 _ (List.mem_of_getLast? hlast)

theorem dropWhile_blank_of_head? {text : List Char}
    (h : ∀ c ∈ text.head?, isBlank c = false) :
    text.dropWhile isBlank = text := by
  cases text with
  | nil => rfl
  | cons c rest =>
      rw [List.dropWhile_cons_of_neg]
      simp [h c rfl]

theorem trim_of_not_blank {text : List Char}
    (h : ∀ c ∈ text, isBlank c = false) : trim text = text := by
  have hfirst : text.dropWhile isBlank = text :=
    dropWhile_blank_of_head? fun c hc => h c (List.mem_of_mem_head? hc)
  have hlast : text.reverse.dropWhile isBlank = text.reverse :=
    dropWhile_blank_of_head? fun c hc =>
      h c (List.mem_reverse.1 (List.mem_of_mem_head? hc))
  rw [trim, hfirst, hlast, List.reverse_reverse]

namespace Decimal

theorem isBlank_of_isDigit {c : Char} (h : c.isDigit = true) :
    isBlank c = false := by
  apply isBlank_of_visible
  rw [isDigit_iff] at h
  simp only [Char.le_def, UInt32.le_iff_toNat_le, Char.toNat_val] at h
  have h0 : ('0' : Char).toNat = 48 := rfl
  have h9 : ('9' : Char).toNat = 57 := rfl
  omega

theorem isDigit_of_mem_toDigits {n : Nat} {c : Char}
    (h : c ∈ Nat.toDigits 10 n) : c.isDigit = true :=
  Nat.isDigit_of_mem_toDigits (by decide) (by decide) h

theorem toList_write_ofNat (n : Nat) :
    (write (.ofNat n)).toList = Nat.toDigits 10 n := by
  rw [write, Nat.repr_eq_ofList_toDigits, String.toList_ofList]

theorem toList_write_negSucc (n : Nat) :
    (write (.negSucc n)).toList = '-' :: Nat.toDigits 10 (n + 1) := by
  simp [write, Nat.repr_eq_ofList_toDigits]

theorem isWord_write (n : Int) : IsWord (write n) := by
  have hdigits : ∀ m, ∀ c ∈ Nat.toDigits 10 m, isBlank c = false :=
    fun _ _ hc => isBlank_of_isDigit (isDigit_of_mem_toDigits hc)
  cases n with
  | ofNat m =>
      refine ⟨Nat.repr_ne_empty, ?_⟩
      rw [toList_write_ofNat]
      exact hdigits m
  | negSucc m =>
      refine ⟨fun hempty => ?_, ?_⟩
      · have hnil := toList_write_negSucc m
        rw [hempty] at hnil
        cases hnil
      · rw [toList_write_negSucc, List.forall_mem_cons]
        exact ⟨by decide, hdigits (m + 1)⟩

theorem magnitude?_toDigits (n : Nat) :
    magnitude? (Nat.toDigits 10 n) = some n := by
  have hall : (Nat.toDigits 10 n).all Char.isDigit = true :=
    List.all_eq_true.2 fun _ hc => isDigit_of_mem_toDigits hc
  have hne : (Nat.toDigits 10 n).isEmpty = false :=
    List.isEmpty_eq_false_iff.2 Nat.toDigits_ne_nil
  rw [magnitude?, hall, hne, Nat.ofDigitChars_ten_toDigits]
  rfl

/-- A text that starts with a digit has no sign. -/
theorem value?_of_isDigit {first : Char} {rest : List Char}
    (h : first.isDigit = true) :
    value? (first :: rest) = (magnitude? (first :: rest)).map Int.ofNat := by
  rw [value?.eq_def]
  split
  · next heq =>
      cases heq
      cases h
  · next heq =>
      cases heq
      cases h
  · rfl

theorem value?_write (n : Int) : value? (write n).toList = some n := by
  cases n with
  | ofNat m =>
      obtain ⟨first, rest, hdigits⟩ :=
        List.exists_cons_of_ne_nil (@Nat.toDigits_ne_nil m 10)
      have hfirst : first.isDigit = true :=
        isDigit_of_mem_toDigits (by rw [hdigits]; exact List.mem_cons_self)
      rw [toList_write_ofNat, hdigits, value?_of_isDigit hfirst, ← hdigits,
        magnitude?_toDigits]
      rfl
  | negSucc m =>
      rw [toList_write_negSucc, value?, magnitude?_toDigits]
      rfl

/-- An integer that is read is the value of its text, and fits in 64 bits. -/
theorem read?_eq_some_iff {numeral : List Char} {n : Int} :
    read? numeral = some n ↔
      value? numeral = some n ∧ least ≤ n ∧ n ≤ greatest := by
  rw [read?, Option.filter_eq_some_iff, Bool.and_eq_true, decide_eq_true_eq,
    decide_eq_true_eq]

end Decimal

end SetCalculator.Text

namespace SetCalculator.Source

theorem integer?_write {n : Int}
    (h : Text.Decimal.least ≤ n ∧ n ≤ Text.Decimal.greatest) :
    integer? (Text.Decimal.write n) = some n := by
  rw [integer?, Text.trim_of_not_blank (Text.Decimal.isWord_write n).2,
    Text.Decimal.read?_eq_some_iff]
  exact ⟨Text.Decimal.value?_write n, h⟩

end SetCalculator.Source
