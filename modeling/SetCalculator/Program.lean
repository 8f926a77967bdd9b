import SetCalculator.Evaluation
import SetCalculator.Expr.Reading
import SetCalculator.Problem

/-!
# Programs

A program is a text. It is compiled as a whole before any source is asked for,
and its value is a list of integers in ascending order without duplicates.
-/

namespace SetCalculator.Program

def tokens (source : String) : Except Problem (List Token) :=
  (Token.ofText source).mapError .lexical

/-- The expression that a program spells. -/
def compile (registry : Registry) (source : String) : Except Problem Expr := do
  let tokens ← tokens source
  (Expr.ofTokens registry tokens).mapError .compile

/-- Compiles a program and evaluates it on the sources of a loader. -/
def run (registry : Registry) (loader : Source.Loader) (source : String) :
    Execution Problem (List Int) :=
  match compile registry source with
  | .error problem => ⟨.error problem, []⟩
  | .ok e => (e.evaluate loader).mapBoth .runtime IntSet.toList

end SetCalculator.Program
