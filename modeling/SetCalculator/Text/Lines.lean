/-!
# Lines

A line ends at a line feed, and a carriage return directly before that feed
belongs to the ending. Whatever follows the last feed is a line too, unless it
is empty. There a carriage return belongs to the line, as it does anywhere else.

The same rule is wanted for characters and for bytes, so it is stated over any
type of symbols with a feed and a return among them.
-/

namespace SetCalculator.Text

variable {α : Type} [BEq α]

/-- A terminated line without the carriage return that belongs to its ending. -/
def dropReturn (cr : α) (line : List α) : List α :=
  if line.getLast?.any (· == cr) then line.dropLast else line

/-- The lines that a feed ends. -/
def endedLines (lf cr : α) (text : List α) : List (List α) :=
  (text.splitOn lf).dropLast.map (dropReturn cr)

/-- What follows the last feed, and may be empty. -/
def unendedRest (lf : α) (text : List α) : List α :=
  (text.splitOn lf).getLastD []

/-- All lines of a text: those that a feed ends, then the rest if there is
any. -/
def splitLines (lf cr : α) (text : List α) : List (List α) :=
  let rest := unendedRest lf text
  endedLines lf cr text ++ if rest.isEmpty then [] else [rest]

def lines (text : String) : List String :=
  (splitLines '\n' '\r' text.toList).map String.ofList

end SetCalculator.Text
