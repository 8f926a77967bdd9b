import SetCalculator.Text.Blank

/-!
# Numerals

What makes a text the numeral of an integer, said without reading it: at least
one decimal digit, perhaps after a sign, and every digit counts by its place.
Zeros in front are allowed and add nothing, and no numeral is too long. Which
integers fit in 64 bits is a question of its own.
-/

namespace SetCalculator.Text

/-- What a digit stands for in the last place. -/
def digitValue (c : Char) : Nat := c.toNat - '0'.toNat

/-- The value of some digits: each counts ten times as much as it would one
place later. -/
def placeValue : List Char → Nat
  | [] => 0
  | c :: rest => digitValue c * Nat.pow 10 rest.length + placeValue rest

/-- At least one character, and each of them an ASCII digit. -/
def IsDigits (digits : List Char) : Prop :=
  digits ≠ [] ∧ ∀ c ∈ digits, '0' ≤ c ∧ c ≤ '9'

/-- The text is a numeral of the integer. -/
inductive Numeral : List Char → Int → Prop where
  | unsigned {digits : List Char} (isDigits : IsDigits digits) :
      Numeral digits (placeValue digits)
  | plus {digits : List Char} (isDigits : IsDigits digits) :
      Numeral ('+' :: digits) (placeValue digits)
  | minus {digits : List Char} (isDigits : IsDigits digits) :
      Numeral ('-' :: digits) (-placeValue digits)

/-- The integer has 64 bits with its sign. -/
def FitsIn64 (n : Int) : Prop := -Int.pow 2 63 ≤ n ∧ n ≤ Int.pow 2 63 - 1

/-- The line is a numeral of the integer, with nothing but blanks around it. -/
def HoldsNumeral (line : String) (n : Int) : Prop :=
  ∃ before numeral after, line.toList = before ++ (numeral ++ after) ∧
    (∀ c ∈ before, isBlank c = true) ∧ (∀ c ∈ after, isBlank c = true) ∧
    Numeral numeral n

end SetCalculator.Text
