import SetCalculator.CompileError
import SetCalculator.Source.Integers
import SetCalculator.Token

/-!
# Problems

A program can fail in three ways, one for each stage it goes through: a word is
no token, the tokens spell no expression, or a source has no set of integers.
The report says which, in front of the sentence of the stage.
-/

namespace SetCalculator

/-- Why a program has no value. -/
inductive Problem where
  | lexical (error : UnknownWord)
  | compile (error : CompileError)
  | runtime (error : SourceError)
  deriving DecidableEq, Repr

def Problem.message : Problem → String
  | .lexical error => "SYNTAX ERROR: " ++ error.message
  | .compile error => "COMPILE ERROR: " ++ error.message
  | .runtime error => "RUNTIME ERROR: " ++ error.message

end SetCalculator
