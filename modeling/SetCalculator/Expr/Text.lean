import SetCalculator.Expr

/-!
# The canonical text of an expression

An expression is written as the words of the program it comes from, with one
space between two words: a source is its name, a call is `[`, the function's
name, the arguments and `]`. Both functions of this module read the walk through
the expression, so neither depends on how deep it is; the equations below say
what they are on each kind of expression.
-/

namespace SetCalculator

namespace Visit

/-- The words that a step of the walk stands for. -/
def words : Visit → List String
  | .leaf source => [source]
  | .enter f => ["[", f.name]
  | .leave => ["]"]

/-- How many tokens a step of the walk stands for. -/
def tokenCount : Visit → Nat
  | .leaf _ => 1
  | .enter _ => 2
  | .leave => 1

end Visit

namespace Expr

def words (e : Expr) : List String :=
  e.visits.flatMap Visit.words

def text (e : Expr) : String :=
  " ".intercalate e.words

/-- How many tokens the canonical text of an expression has. -/
def tokenCount (e : Expr) : Nat :=
  e.visits.foldl (fun count visit => count + visit.tokenCount) 0

/-- How many tokens the canonical texts of some expressions have, taken
together. -/
def tokenCountOfAll : List Expr → Nat
  | [] => 0
  | e :: rest => e.tokenCount + tokenCountOfAll rest

@[simp] theorem words_load (source : String) :
    words (.load source) = [source] := by
  simp [words, Visit.words]

@[simp] theorem words_call (f : SetFunction) (args : List Expr) :
    words (.call f args) = "[" :: f.name :: (args.flatMap words ++ ["]"]) := by
  simp [words, Visit.words, List.flatMap_assoc]
  rfl

private theorem foldl_tokenCount (visits : List Visit) (start : Nat) :
    visits.foldl (fun count visit => count + visit.tokenCount) start =
      start + visits.foldl (fun count visit => count + visit.tokenCount) 0 := by
  induction visits generalizing start with
  | nil => rfl
  | cons visit rest ih =>
      rw [List.foldl_cons, List.foldl_cons, ih, ih (0 + visit.tokenCount)]
      omega

private theorem foldl_tokenCount_flatMap (es : List Expr) :
    (es.flatMap visits).foldl (fun count visit => count + visit.tokenCount) 0 =
      tokenCountOfAll es := by
  induction es with
  | nil => rfl
  | cons e rest ih =>
      rw [List.flatMap_cons, List.foldl_append, foldl_tokenCount, ih,
        tokenCountOfAll, tokenCount]

@[simp] theorem tokenCount_load (source : String) :
    tokenCount (.load source) = 1 := by
  rw [tokenCount, visits_load]
  rfl

@[simp] theorem tokenCount_call (f : SetFunction) (args : List Expr) :
    tokenCount (.call f args) = 3 + tokenCountOfAll args := by
  rw [tokenCount, visits_call, List.foldl_cons, List.foldl_append,
    foldl_tokenCount (args.flatMap visits) (0 + _), foldl_tokenCount_flatMap]
  simp +arith [Visit.tokenCount]

end Expr

end SetCalculator
