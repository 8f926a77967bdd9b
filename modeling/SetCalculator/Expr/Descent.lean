import SetCalculator.CompileError
import SetCalculator.Expr
import SetCalculator.Registry
import SetCalculator.Token

/-!
# Reading by descent

The reading of expressions told once more, as recursive descent: a function for
an expression, one for a call, and a loop over the arguments of a call, all of
them with the same cursor. The cursor can be advanced whether or not there is a
token, and it keeps a record of the places where that was done. The loop looks
for the bracket that ends the call and for the end of the tokens, and leaves
everything else to the arguments.

So nothing in these functions says that they come to an end, or that the cursor
stays among the tokens. Their first argument is fuel: it bounds how deep the
calls of one another go, and where it does not suffice there is no answer.
-/

namespace SetCalculator.Expr.Descent

/-- A place among tokens. -/
structure Cursor where
  tokens : List Token
  /-- The index of the next token. -/
  position : Nat
  /-- The positions from which the cursor was advanced, in order. -/
  advances : List Nat

namespace Cursor

def start (tokens : List Token) (index : Nat) : Cursor := ⟨tokens, index, []⟩

def next? (cursor : Cursor) : Option Token := cursor.tokens[cursor.position]?

def isAtEnd (cursor : Cursor) : Bool := cursor.tokens.length ≤ cursor.position

/-- Whether the next token is of a kind. At the end there is none. -/
def isAt (cursor : Cursor) (kind : TokenKind) : Bool :=
  cursor.next?.any fun token => token.kind = kind

def advance (cursor : Cursor) : Cursor :=
  ⟨cursor.tokens, cursor.position + 1, cursor.advances ++ [cursor.position]⟩

end Cursor

/-- What a function comes to, and where it leaves the cursor. -/
structure Run where
  outcome : Except CompileError Expr
  cursor : Cursor

mutual

/-- Reads an expression. -/
def expression (registry : Registry) : Nat → Cursor → Option Run
  | 0, _ => none
  | fuel + 1, cursor =>
      match cursor.next? with
      | none => some ⟨.error ⟨.endOfInput, cursor.position⟩, cursor⟩
      | some token =>
          match token.kind with
          | .fileName => some ⟨.ok (.load token.raw), cursor.advance⟩
          | .callStart => call registry fuel cursor
          | .callEnd | .functionName =>
              some ⟨.error ⟨.unexpectedToken token.raw, cursor.position⟩,
                cursor⟩

/-- Reads a call, with the cursor at the bracket that starts it. -/
def call (registry : Registry) : Nat → Cursor → Option Run
  | 0, _ => none
  | fuel + 1, cursor =>
      let cursor := cursor.advance
      match cursor.next? with
      | none => some ⟨.error ⟨.endOfInput, cursor.position⟩, cursor⟩
      | some token =>
          match token.kind with
          | .functionName =>
              match registry.get? token.raw with
              | none =>
                  some ⟨.error ⟨.unknownFunction token.raw, cursor.position⟩,
                    cursor⟩
              | some f => arguments registry fuel token.raw f [] cursor.advance
          | .callStart | .callEnd | .fileName =>
              some ⟨.error ⟨.expectedFunctionName token.raw, cursor.position⟩,
                cursor⟩

/-- Reads the arguments of a call that are still to come. Those it has are
given, latest first. -/
def arguments (registry : Registry) :
    Nat → String → SetFunction → List Expr → Cursor → Option Run
  | 0, _, _, _, _ => none
  | fuel + 1, name, f, args, cursor =>
      if cursor.isAt .callEnd then
        if args.isEmpty then
          some ⟨.error ⟨.emptyCall name, cursor.position⟩, cursor⟩
        else some ⟨.ok (.call f args.reverse), cursor.advance⟩
      else if cursor.isAtEnd then
        some ⟨.error ⟨.endOfInput, cursor.position⟩, cursor⟩
      else
        match expression registry fuel cursor with
        | some ⟨.ok e, cursor⟩ =>
            arguments registry fuel name f (e :: args) cursor
        | ended => ended

end

/-- Reads the one expression that starts at an index. -/
def read (registry : Registry) (fuel : Nat) (tokens : List Token)
    (index : Nat) : Option Run :=
  expression registry fuel (Cursor.start tokens index)

end SetCalculator.Expr.Descent
