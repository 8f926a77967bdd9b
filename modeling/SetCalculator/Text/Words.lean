import SetCalculator.Text.Blank

/-!
# Words

The words of a text are its longest runs without a blank. Cutting the text at
every blank gives the words and, between two neighbouring blanks or at an end,
an empty piece; the empty pieces are dropped. So blanks never add a word,
however many of them there are, and no word is empty.
-/

namespace SetCalculator.Text

/-- The longest runs of characters that are not blank, in order. -/
def runs (text : List Char) : List (List Char) :=
  (text.splitOnP isBlank).filter fun piece => !piece.isEmpty

/-- The words of a text, in order. -/
def words (text : String) : List String :=
  (runs text.toList).map String.ofList

end SetCalculator.Text
