import SetCalculator.IntSet

/-!
# Set functions

A call applies one of three functions to any number of sets: the union, the
intersection, or the difference of the first set and all later ones. Each is the
left fold of a binary step, seeded with the first operand, and each step decides
integer by integer from membership in its two operands (`SetFunction.keeps`).
-/

namespace SetCalculator

inductive SetFunction where
  | sum
  | int
  | dif
  deriving DecidableEq, Repr

namespace SetFunction

/-- Every function, in the order of their names. -/
def all : List SetFunction := [.dif, .int, .sum]

/-- The name that programs call a function by. -/
def name : SetFunction → String
  | .sum => "SUM"
  | .int => "INT"
  | .dif => "DIF"

theorem name_injective {f g : SetFunction} (h : f.name = g.name) : f = g := by
  cases f <;> cases g <;> first | rfl | exact absurd h (by decide)

def ofName? (name : String) : Option SetFunction :=
  all.find? fun f => f.name == name

/-- Whether an integer stays in the result, given whether the result so far has
it and whether the next operand has it. -/
def keeps : SetFunction → Bool → Bool → Bool
  | .sum, inResult, inNext => inResult || inNext
  | .int, inResult, inNext => inResult && inNext
  | .dif, inResult, inNext => inResult && !inNext

/-- The result so far, with the next operand taken in. -/
def combine (f : SetFunction) (result next : IntSet) : IntSet :=
  IntSet.combine f.keeps result next

/-- The function applied to its operands in order. No operands give the empty
set. -/
def apply (f : SetFunction) : List IntSet → IntSet
  | [] => ∅
  | first :: rest => rest.foldl f.combine first

@[simp] theorem mem_combine {f : SetFunction} {n : Int} {s t : IntSet} :
    n ∈ f.combine s t ↔ f.keeps (decide (n ∈ s)) (decide (n ∈ t)) = true :=
  IntSet.mem_combine (by cases f <;> rfl)

end SetFunction

end SetCalculator
