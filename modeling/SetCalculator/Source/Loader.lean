/-!
# Loaders

A loader opens sources by name and gives their lines, or says what went wrong.
Both opening a source and reading a line of it can fail. A source that does not
exist is kept apart from every other fault, because it is reported in its own
words.
-/

namespace SetCalculator.Source

/-- Why a source cannot be opened or read on. -/
inductive Fault where
  /-- The path holds the character U+0000. -/
  | nulInPath
  /-- The path, or a name in it, is longer than the system allows. -/
  | nameTooLong
  /-- The path leads through something that is not a directory. -/
  | notADirectory
  /-- The path leads to a directory, which has no lines. -/
  | isADirectory
  /-- The bytes of a line are not UTF-8. -/
  | notUtf8
  /-- Any other fault, in the words of the system. -/
  | other (report : String)
  deriving DecidableEq, Repr

def Fault.message : Fault → String
  | .nulInPath => "file name contained an unexpected NUL byte"
  | .nameTooLong => "File name too long (os error 36)"
  | .notADirectory => "Not a directory (os error 20)"
  | .isADirectory => "Is a directory (os error 21)"
  | .notUtf8 => "stream did not contain valid UTF-8"
  | .other report => report

/-- Why a source cannot be opened. -/
inductive OpenError where
  | notFound
  | fault (cause : Fault)
  deriving DecidableEq, Repr

def OpenError.message : OpenError → String
  | .notFound => "source not found"
  | .fault cause => cause.message

/-- One item of a source that is being read: a line, or the fault met in its
place. -/
abbrev LineItem := Except Fault String

/-- Opens the source of a name and gives its lines. -/
abbrev Loader := String → Except OpenError (List LineItem)

end SetCalculator.Source
