import SetCalculator.Proofs.Text.NumeralGrammar

/-!
# Overflow at a digit is overflow of the numeral

Reading works out a value of any size and then compares it with the limits of
64 bits. A reader that has nothing but 64 bits cannot do that: it multiplies and
adds digit by digit, away from zero in the direction of the sign, and has to
give up as soon as one of the two operations overflows. `readStepwise?` is such
a reader, and it gives the same answers.

Totals only grow along the digits, and the product within a step is no larger
than the sum after it. So what overflows on the way would overflow at the end,
which is why a fold of checked steps checks the exact value once
(`foldlM_takeDigit?_eq`). The limits lie one apart on the two sides of zero, and
nothing in this depends on where exactly they lie.
-/

namespace SetCalculator.Text.Decimal

/-- The integer itself, unless it overflows 64 bits. -/
def fit? (n : Int) : Option Int :=
  if least ≤ n ∧ n ≤ greatest then some n else none

/-- Takes one more digit into a total with the given sign. The product and the
sum can both overflow. -/
def takeDigit? (sign total : Int) (c : Char) : Option Int :=
  if c.isDigit then
    (fit? (10 * total)).bind fun shifted => fit? (shifted + sign * digitValue c)
  else none

/-- The value of some digits with a sign, in 64 bits throughout. -/
def stepwise? (sign : Int) (digits : List Char) : Option Int :=
  if digits.isEmpty then none else digits.foldlM (takeDigit? sign) 0

/-- Reads a numeral in 64 bits throughout. -/
def readStepwise? : List Char → Option Int
  | '+' :: digits => stepwise? 1 digits
  | '-' :: digits => stepwise? (-1) digits
  | digits => stepwise? 1 digits

/-! ## Smaller totals fit where larger ones do -/

theorem fit?_eq_none_iff {n : Int} :
    fit? n = none ↔ ¬ (least ≤ n ∧ n ≤ greatest) := by
  rw [fit?]
  split <;> simp_all

theorem fit?_of_fits {n : Int} (h : least ≤ n ∧ n ≤ greatest) :
    fit? n = some n := if_pos h

variable {sign : Int}

theorem fits_of_le (hsign : sign = 1 ∨ sign = -1) {m m' : Nat} (hle : m ≤ m')
    (h : least ≤ sign * m' ∧ sign * m' ≤ greatest) :
    least ≤ sign * m ∧ sign * m ≤ greatest := by
  simp only [least, greatest] at h ⊢
  rcases hsign with rfl | rfl <;> omega

theorem fit?_eq_none_of_le (hsign : sign = 1 ∨ sign = -1) {m m' : Nat}
    (hle : m ≤ m') (h : fit? (sign * m) = none) : fit? (sign * m') = none := by
  rw [fit?_eq_none_iff] at h ⊢
  exact fun hfits => h (fits_of_le hsign hle hfits)

theorem le_ofDigitChars (digits : List Char) (m : Nat) :
    m ≤ Nat.ofDigitChars 10 digits m := by
  rw [Nat.ofDigitChars_eq_ofDigitChars_zero]
  have hpos : 0 < 10 ^ digits.length := Nat.pow_pos (by decide)
  have hle := Nat.le_mul_of_pos_left m hpos
  omega

/-! ## One digit, then all of them -/

/-- The product overflows only where the sum does. -/
theorem takeDigit?_eq (hsign : sign = 1 ∨ sign = -1) {c : Char}
    (hc : c.isDigit = true) (m : Nat) :
    takeDigit? sign (sign * m) c =
      fit? (sign * (10 * m + digitValue c : Nat)) := by
  have hproduct : 10 * (sign * m) = sign * (10 * m : Nat) := by
    rcases hsign with rfl | rfl <;> omega
  have hsum : sign * (10 * m : Nat) + sign * digitValue c =
      sign * (10 * m + digitValue c : Nat) := by
    rcases hsign with rfl | rfl <;> omega
  rw [takeDigit?, if_pos hc, hproduct]
  cases hfit : fit? (sign * (10 * m : Nat)) with
  | none =>
      rw [fit?_eq_none_of_le hsign (Nat.le_add_right _ _) hfit]
      rfl
  | some shifted =>
      rw [fit?] at hfit
      split at hfit
      · cases hfit
        rw [Option.bind_some, hsum]
      · cases hfit

/-- Checking every step is checking the exact value once. -/
theorem foldlM_takeDigit?_eq (hsign : sign = 1 ∨ sign = -1)
    (digits : List Char) {m : Nat} (hm : fit? (sign * m) = some (sign * m)) :
    digits.foldlM (takeDigit? sign) (sign * m) =
      if digits.all Char.isDigit then
        fit? (sign * Nat.ofDigitChars 10 digits m)
      else none := by
  induction digits generalizing m with
  | nil => exact hm.symm
  | cons c rest ih =>
      rw [List.foldlM_cons, List.all_cons, Nat.ofDigitChars_cons]
      by_cases hc : c.isDigit = true
      · rw [takeDigit?_eq hsign hc, hc, Bool.true_and]
        change (fit? (sign * (10 * m + digitValue c : Nat))).bind _ =
          if rest.all Char.isDigit then
            fit? (sign * Nat.ofDigitChars 10 rest (10 * m + digitValue c))
          else none
        generalize 10 * m + digitValue c = total
        cases hfit : fit? (sign * total) with
        | none =>
            rw [fit?_eq_none_of_le hsign (le_ofDigitChars rest total) hfit,
              ite_self]
            rfl
        | some next =>
            have hnext : fit? (sign * total) = some (sign * total) := by
              refine fit?_of_fits ?_
              apply Classical.byContradiction
              intro hnot
              rw [fit?_eq_none_iff.2 hnot] at hfit
              cases hfit
            rw [hnext] at hfit
            cases hfit
            exact ih hnext
      · rw [takeDigit?, if_neg hc]
        simp [hc]

theorem stepwise?_eq (hsign : sign = 1 ∨ sign = -1) (digits : List Char) :
    stepwise? sign digits =
      ((magnitude? digits).map fun m : Nat => sign * (m : Int)).filter
        fun n => least ≤ n && n ≤ greatest := by
  have hzero : sign * (0 : Nat) = 0 := Int.mul_zero sign
  have hfold := @foldlM_takeDigit?_eq sign hsign digits 0
    (by rw [hzero]; rfl)
  rw [hzero] at hfold
  rw [stepwise?, magnitude?, hfold]
  cases digits.isEmpty <;> cases digits.all Char.isDigit <;>
    simp [fit?, Option.filter]

/-- A reader that never leaves 64 bits gives the answers of the exact one. -/
theorem readStepwise?_eq_read? (numeral : List Char) :
    readStepwise? numeral = read? numeral := by
  have hplus : (fun m : Nat => 1 * (m : Int)) = Int.ofNat :=
    funext fun m => Int.one_mul m
  have hminus : (fun m : Nat => -1 * (m : Int)) = fun m => -Int.ofNat m :=
    funext fun m => Int.neg_one_mul m
  have hpositive := @stepwise?_eq 1 (.inl rfl)
  have hnegative := @stepwise?_eq (-1) (.inr rfl)
  rw [hplus] at hpositive
  rw [hminus] at hnegative
  rw [read?]
  fun_cases value? numeral with
  | case1 digits => exact hpositive digits
  | case2 digits => exact hnegative digits
  | case3 _ hnotPlus hnotMinus =>
      rw [readStepwise?]
      · exact hpositive numeral
      · exact hnotPlus
      · exact hnotMinus

end SetCalculator.Text.Decimal
