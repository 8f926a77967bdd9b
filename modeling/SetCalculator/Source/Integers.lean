import SetCalculator.IntSet
import SetCalculator.Source.Loader
import SetCalculator.Text.Blank
import SetCalculator.Text.Decimal

/-!
# The integers of a source

Every line of a source holds one decimal integer of 64 bits, which blanks may
surround. A line that holds anything else, a blank line included, makes the
whole source worthless, and so does a fault. The first such item is the one
reported.
-/

namespace SetCalculator

/-- Why a source has no set of integers. -/
inductive SourceError where
  | notFound (source : String)
  /-- A line, as it was read, is no integer. Lines are numbered from 1. -/
  | notAnInteger (source line : String) (number : Nat)
  | unreadable (source : String) (fault : Source.Fault)
  deriving DecidableEq, Repr

def SourceError.message : SourceError → String
  | .notFound source => "source '" ++ source ++ "' not found"
  | .notAnInteger source line number =>
      "invalid integer '" ++ line ++ "' in source '" ++ source ++
        "' at line " ++ number.repr
  | .unreadable source fault =>
      "failed to read source '" ++ source ++ "': " ++ fault.message

namespace Source

/-- The integer of a line, if it holds one. -/
def integer? (line : String) : Option Int :=
  Text.Decimal.read? (Text.trim line.toList)

/-- The integer of an item, which is the given line of a source. -/
def readItem (source : String) (number : Nat) :
    LineItem → Except SourceError Int
  | .error fault => .error (.unreadable source fault)
  | .ok line =>
      match integer? line with
      | some n => .ok n
      | none => .error (.notAnInteger source line number)

/-- The integers of the items of a source, in order. -/
def readItems (source : String) (items : List LineItem) :
    Except SourceError (List Int) :=
  (items.zipIdx 1).mapM fun (item, number) => readItem source number item

def load (loader : Loader) (source : String) : Except SourceError IntSet :=
  match loader source with
  | .error .notFound => .error (.notFound source)
  | .error (.fault cause) => .error (.unreadable source cause)
  | .ok items => (readItems source items).map IntSet.ofList

end Source

end SetCalculator
