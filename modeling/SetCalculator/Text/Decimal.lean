/-!
# Decimal integers of 64 bits

A numeral is an optional sign followed by at least one ASCII digit; leading
zeros are allowed and the value has to fit in 64 bits with a sign. The value is
computed exactly and compared with the two limits afterwards, so a numeral next
to a limit is judged by its value and not by how long it is.

Integers are written without leading zeros, and with a sign only when negative.
-/

namespace SetCalculator.Text.Decimal

/-- The least integer of 64 bits, `-2 ^ 63`. -/
def least : Int := -9223372036854775808

/-- The greatest integer of 64 bits, `2 ^ 63 - 1`. -/
def greatest : Int := 9223372036854775807

/-- The value of a non-empty text of digits. -/
def magnitude? (digits : List Char) : Option Nat :=
  if digits.isEmpty || !digits.all Char.isDigit then none
  else some (Nat.ofDigitChars 10 digits 0)

/-- The value of a signed text of digits, of any size. -/
def value? : List Char → Option Int
  | '+' :: digits => (magnitude? digits).map Int.ofNat
  | '-' :: digits => (magnitude? digits).map fun m => -Int.ofNat m
  | digits => (magnitude? digits).map Int.ofNat

/-- The integer that a numeral stands for, if it is one and fits in 64 bits. -/
def read? (numeral : List Char) : Option Int :=
  (value? numeral).filter fun n => least ≤ n && n ≤ greatest

def write : Int → String
  | .ofNat n => n.repr
  | .negSucc n => "-" ++ (n + 1).repr

end SetCalculator.Text.Decimal
