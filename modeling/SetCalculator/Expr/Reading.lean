import SetCalculator.CompileError
import SetCalculator.Expr
import SetCalculator.Registry
import SetCalculator.Token

/-!
# Reading expressions from tokens

An expression is a file name, or a function name and at least one expression
between brackets:

    expression := FILE_NAME | "[" FUNCTION_NAME expression+ "]"

The reader takes one token at a time. All it remembers is the list of open
calls, innermost first, and whether the next token has to name a function. One
step either consumes its token or refuses it, so a refusal always shows at the
token after those that were consumed, and reading ends because the tokens do.

Only the kind of a token decides what it may be. Its word is kept as the name of
a source, or looked up as the name of a function.
-/

namespace SetCalculator.Expr

/-- A call that has started and not ended, with the arguments read so far,
latest first. -/
structure OpenCall where
  function : SetFunction
  args : List Expr

/-- What the reader remembers between two tokens: the open calls, innermost
first, and what has to follow. -/
inductive ReadState where
  /-- An expression may start here. -/
  | argument (calls : List OpenCall)
  /-- A call has just started, and its function has to follow. -/
  | functionName (calls : List OpenCall)

/-- What a token leads to. -/
inductive Progress where
  /-- The expression goes on. -/
  | more (state : ReadState)
  /-- The expression is complete. -/
  | complete (e : Expr)

/-- Hands an expression to the innermost open call; without one it is all there
is. -/
def deliver (e : Expr) : List OpenCall → Progress
  | [] => .complete e
  | ⟨f, args⟩ :: outer => .more (.argument (⟨f, e :: args⟩ :: outer))

/-- One step of the reader: consumes a token, or refuses it. -/
def step (registry : Registry) :
    ReadState → Token → Except CompileError.Cause Progress
  | .functionName calls, token =>
      match token.kind with
      | .functionName =>
          match registry.get? token.raw with
          | some f => .ok (.more (.argument (⟨f, []⟩ :: calls)))
          | none => .error (.unknownFunction token.raw)
      | _ => .error (.expectedFunctionName token.raw)
  | .argument calls, token =>
      match token.kind, calls with
      | .fileName, _ => .ok (deliver (.load token.raw) calls)
      | .callStart, _ => .ok (.more (.functionName calls))
      | .callEnd, ⟨f, args⟩ :: outer =>
          if args.isEmpty then .error (.emptyCall f.name)
          else .ok (deliver (.call f args.reverse) outer)
      | .callEnd, [] => .error (.unexpectedToken token.raw)
      | .functionName, _ => .error (.unexpectedToken token.raw)

/-- An expression that was read, with what lies around it. -/
structure ReadResult where
  expr : Expr
  /-- How many tokens there are before the end of the expression. -/
  position : Nat
  /-- The tokens after the expression. -/
  rest : List Token

/-- Reads on from a state. `position` tells how many tokens come before the
given ones. -/
def readFrom (registry : Registry) :
    ReadState → Nat → List Token → Except CompileError ReadResult
  | _, position, [] => .error ⟨.endOfInput, position⟩
  | state, position, token :: rest =>
      match step registry state token with
      | .error cause => .error ⟨cause, position⟩
      | .ok (.complete e) => .ok ⟨e, position + 1, rest⟩
      | .ok (.more next) => readFrom registry next (position + 1) rest

/-- Reads the one expression that starts at an index, and tells how many tokens
it takes up. -/
def readAt (registry : Registry) (tokens : List Token) (index : Nat) :
    Except CompileError (Expr × Nat) :=
  match readFrom registry (.argument []) index (tokens.drop index) with
  | .ok read => .ok (read.expr, read.position - index)
  | .error error => .error error

/-- The expression that a whole sequence of tokens spells. -/
def ofTokens (registry : Registry) (tokens : List Token) :
    Except CompileError Expr :=
  match readFrom registry (.argument []) 0 tokens with
  | .error error => .error error
  | .ok ⟨e, _, []⟩ => .ok e
  | .ok ⟨_, position, token :: rest⟩ =>
      .error ⟨.trailingTokens token.raw (rest.length + 1), position⟩

end SetCalculator.Expr
