/-!
# Blank characters

A character is blank when Unicode gives it the property White_Space. Blanks
separate the words of a program, and they are the only thing that may surround
the integer on a line of a source. The property is wider than the six blanks of
ASCII and narrower than "looks empty": U+200B and U+FEFF are not blank, and
neither are the four information separators U+001C to U+001F.
-/

namespace SetCalculator.Text

/-- The code points with the property White_Space, as ranges with both ends
included. -/
def blankRanges : List (Nat × Nat) :=
  [(0x0009, 0x000D), (0x0020, 0x0020), (0x0085, 0x0085), (0x00A0, 0x00A0),
   (0x1680, 0x1680), (0x2000, 0x200A), (0x2028, 0x2029), (0x202F, 0x202F),
   (0x205F, 0x205F), (0x3000, 0x3000)]

/-- Whether a character is blank. -/
def isBlank (c : Char) : Bool :=
  blankRanges.any fun (first, last) => first ≤ c.toNat && c.toNat ≤ last

/-- A text without the blanks at its two ends. -/
def trim (text : List Char) : List Char :=
  ((text.dropWhile isBlank).reverse.dropWhile isBlank).reverse

end SetCalculator.Text
