import SetCalculator.Expr
import SetCalculator.Source.Integers

/-!
# The value of an expression

An expression is evaluated along the walk through it: a source is loaded when
the walk meets it, and a call is applied when the walk leaves it. So sources are
asked for from left to right, once for each place at which they stand, and the
first that fails ends the evaluation with its own error.

Which sources were asked for is part of the answer, because it can be seen from
outside.
-/

namespace SetCalculator

/-- The result of running something that loads sources: how it came out, and the
sources that were asked for, in order, the one that failed included. -/
structure Execution (ε α : Type) where
  outcome : Except ε α
  requests : List String

/-- The execution with its error and its value put in other terms. -/
def Execution.mapBoth {ε ε' α α' : Type} (onError : ε → ε') (onValue : α → α')
    (run : Execution ε α) : Execution ε' α' where
  outcome := match run.outcome with
    | .ok value => .ok (onValue value)
    | .error error => .error (onError error)
  requests := run.requests

namespace Expr

/-- A call whose arguments are being evaluated, and the operands that were
complete before it, latest first. -/
structure Entered where
  function : SetFunction
  before : List IntSet

/-- Evaluates along the rest of a walk. `done` holds the operands that are
complete since the innermost call was entered, latest first, `outer` the calls
that were entered, innermost first, and `asked` the sources asked for so far,
latest first. -/
def evaluateFrom (loader : Source.Loader) :
    List Visit → List IntSet → List Entered → List String →
      Execution SourceError IntSet
  | [], done, _, asked => ⟨.ok (done.headD ∅), asked.reverse⟩
  | .leaf source :: rest, done, outer, asked =>
      match Source.load loader source with
      | .ok value =>
          evaluateFrom loader rest (value :: done) outer (source :: asked)
      | .error error => ⟨.error error, (source :: asked).reverse⟩
  | .enter f :: rest, done, outer, asked =>
      evaluateFrom loader rest [] (⟨f, done⟩ :: outer) asked
  | .leave :: rest, done, [], asked => evaluateFrom loader rest done [] asked
  | .leave :: rest, done, innermost :: outer, asked =>
      let value := innermost.function.apply done.reverse
      evaluateFrom loader rest (value :: innermost.before) outer asked

/-- Evaluates an expression on the sources of a loader. -/
def evaluate (loader : Source.Loader) (e : Expr) :
    Execution SourceError IntSet :=
  evaluateFrom loader e.visits [] [] []

end Expr

end SetCalculator
