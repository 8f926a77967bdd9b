import SetCalculator.Text.Words

/-!
# Tokens

A program is a sequence of words, and each word is one token or none: there is
no token inside a word. Which kind of token a word is depends on the word as a
whole (`TokenKind.ofWord?`). Brackets are the words `[` and `]`; a function name
is written in capitals and underscores and a file name starts with a small
letter, so no word is of two kinds.

Only ASCII letters and digits take part. The letters of other alphabets are
capital or small for no purpose here.
-/

namespace SetCalculator

/-- What a token is for. -/
inductive TokenKind where
  | callStart
  | callEnd
  | functionName
  | fileName
  deriving DecidableEq, Repr

namespace TokenKind

/-- The kind as listings of tokens show it. -/
def label : TokenKind → String
  | .callStart => "FuncCallStart"
  | .callEnd => "FuncCallEnd"
  | .functionName => "FuncName"
  | .fileName => "FileName"

/-- The kind in words, for use in a sentence. -/
def description : TokenKind → String
  | .callStart => "'['"
  | .callEnd => "']'"
  | .functionName => "function name"
  | .fileName => "file name"

/-- What may follow the first letter of a function name. -/
def continuesFunctionName (c : Char) : Bool := c.isUpper || c == '_'

/-- What may follow the first letter of a file name. A slash leads into a
directory. -/
def continuesFileName (c : Char) : Bool :=
  c.isLower || c.isDigit || c == '_' || c == '.' || c == '/'

/-- The kind of a word, taken as a whole. -/
def ofWord? : List Char → Option TokenKind
  | ['['] => some .callStart
  | [']'] => some .callEnd
  | [] => none
  | c :: rest =>
      if c.isUpper && rest.all continuesFunctionName then some .functionName
      else if c.isLower && rest.all continuesFileName then some .fileName
      else none

end TokenKind

/-- A word of a program with its kind. -/
structure Token where
  kind : TokenKind
  raw : String
  deriving DecidableEq, Repr

namespace Token

/-- The bracket that starts a call. -/
def callStart : Token := ⟨.callStart, "["⟩

/-- The bracket that ends a call. -/
def callEnd : Token := ⟨.callEnd, "]"⟩

def functionName (name : String) : Token := ⟨.functionName, name⟩

def fileName (name : String) : Token := ⟨.fileName, name⟩

end Token

/-- A word that is no token, and how many words come before it. -/
structure UnknownWord where
  word : String
  position : Nat
  deriving DecidableEq, Repr

def UnknownWord.message (error : UnknownWord) : String :=
  "unknown token '" ++ error.word ++ "'"

namespace Token

/-- The token of one word, which stands at a known position. -/
def ofWord (word : String) (position : Nat) : Except UnknownWord Token :=
  match TokenKind.ofWord? word.toList with
  | some kind => .ok ⟨kind, word⟩
  | none => .error ⟨word, position⟩

/-- The tokens of a program. The first word that is no token makes it none. -/
def ofText (text : String) : Except UnknownWord (List Token) :=
  (Text.words text).zipIdx.mapM fun (word, position) => ofWord word position

end Token

end SetCalculator
