/-!
# Compile errors

Why a sequence of tokens is no program, and at which token that shows.
-/

namespace SetCalculator

/-- What is wrong with a sequence of tokens. -/
inductive CompileError.Cause where
  /-- The tokens end before the expression does. -/
  | endOfInput
  /-- A token that starts no expression stands where one has to start. -/
  | unexpectedToken (found : String)
  /-- What follows the start of a call is no function name. -/
  | expectedFunctionName (found : String)
  /-- A function name is not in the registry. -/
  | unknownFunction (name : String)
  /-- A call ends before its first argument. -/
  | emptyCall (name : String)
  /-- Tokens follow the expression: the first of them, and how many there
  are. -/
  | trailingTokens (found : String) (count : Nat)
  deriving DecidableEq, Repr

/-- A compile error: its cause, and the number of tokens before the one at which
it shows. -/
structure CompileError where
  cause : CompileError.Cause
  position : Nat
  deriving DecidableEq, Repr

namespace CompileError

def Cause.message : Cause → String
  | .endOfInput => "unexpected end of input"
  | .unexpectedToken found =>
      "unexpected token '" ++ found ++ "', expected '[' or a file name"
  | .expectedFunctionName found =>
      "expected function name after '[', found '" ++ found ++ "'"
  | .unknownFunction name => "unknown function '" ++ name ++ "'"
  | .emptyCall name =>
      "function call '" ++ name ++ "' expects at least one argument"
  | .trailingTokens found _ =>
      "unexpected extra tokens after root expression, starting at '" ++
        found ++ "'"

/-- The sentence that reports a compile error. It does not tell the position. -/
def message (error : CompileError) : String := error.cause.message

end CompileError

end SetCalculator
