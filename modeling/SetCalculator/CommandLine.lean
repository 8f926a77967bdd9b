import SetCalculator.Expr.Text
import SetCalculator.Program
import SetCalculator.Source.Files

/-!
# The command line

Arguments are read from left to right. The first one that asks for help or
cannot be accepted settles the matter, whatever comes after it. Of options given
more than once the last counts. A run reports through exactly one channel: lines
on the standard output and status 0, or one report on the standard error and
status 1 for a program that fails, 2 for arguments that make no sense.
-/

namespace SetCalculator.CommandLine

/-- What a run prints when it succeeds. -/
inductive Emit where
  /-- The integers of the value, ascending, one a line. -/
  | result
  /-- The tokens of the program, one a line, each after its kind. -/
  | tokens
  /-- The canonical text of the program. -/
  | tree
  deriving DecidableEq, Repr

/-- How to run a program. -/
structure Options where
  /-- The directory that source names are taken from; the working directory if
  there is none. -/
  baseDir? : Option String := none
  emit : Emit := .result
  deriving DecidableEq, Repr

/-- What the arguments ask for. -/
inductive Command where
  | help
  | run (program : String) (options : Options)
  deriving DecidableEq, Repr

/-- Why arguments make no sense. -/
inductive UsageError where
  | missingProgram
  | extraArgument (argument : String)
  | unknownOption (argument : String)
  | unknownEmit (value : String)
  deriving DecidableEq, Repr

def UsageError.message : UsageError → String
  | .missingProgram => "missing program argument"
  | .extraArgument argument => "unexpected extra argument '" ++ argument ++ "'"
  | .unknownOption argument => "unknown option '" ++ argument ++ "'"
  | .unknownEmit value =>
      "unknown --emit value '" ++ value ++ "' (expected result, tokens or tree)"

def Emit.ofName : String → Except UsageError Emit
  | "result" => .ok .result
  | "tokens" => .ok .tokens
  | "tree" => .ok .tree
  | value => .error (.unknownEmit value)

/-! ## Arguments -/

/-- What one argument is, taken by itself. -/
inductive Argument where
  | help
  | baseDir (path : String)
  | emit (value : String)
  | unknownOption
  | positional
  deriving DecidableEq, Repr

/-- What follows a given beginning of a text, if it begins so. -/
def after? (start text : String) : Option String :=
  (start.toList.isPrefixOf? text.toList).map String.ofList

def Argument.ofString (argument : String) : Argument :=
  if argument = "-h" ∨ argument = "--help" then .help
  else match after? "--base-dir=" argument, after? "--emit=" argument with
    | some path, _ => .baseDir path
    | none, some value => .emit value
    | none, none =>
        if argument.toList.head? = some '-' then .unknownOption
        else .positional

/-- Reads the remaining arguments, given the options and the program found so
far. -/
def parseFrom :
    Options → Option String → List String → Except UsageError Command
  | options, some program, [] => .ok (.run program options)
  | _, none, [] => .error .missingProgram
  | options, program?, argument :: rest =>
      match Argument.ofString argument with
      | .help => .ok .help
      | .baseDir path =>
          parseFrom { options with baseDir? := some path } program? rest
      | .emit value =>
          match Emit.ofName value with
          | .ok emit => parseFrom { options with emit := emit } program? rest
          | .error error => .error error
      | .unknownOption => .error (.unknownOption argument)
      | .positional =>
          match program? with
          | none => parseFrom options (some argument) rest
          | some _ => .error (.extraArgument argument)

def parse (arguments : List String) : Except UsageError Command :=
  parseFrom {} none arguments

/-! ## Output -/

def tokenLine (token : Token) : String :=
  token.kind.label ++ " " ++ token.raw

/-- The lines that a program prints. -/
def render (disk : Source.Disk) (options : Options) (program : String) :
    Except Problem (List String) :=
  match options.emit with
  | .result => do
      let loader := Source.fileLoader disk options.baseDir?
      let values ← (Program.run .builtin loader program).outcome
      return values.map Text.Decimal.write
  | .tokens => do
      let tokens ← Program.tokens program
      return tokens.map tokenLine
  | .tree => do
      let e ← Program.compile .builtin program
      return [e.text]

def usage : String :=
"Usage: scalc [options] \"<program>\"

Example: scalc \"[ SUM [ DIF a.txt b.txt ] [ INT b.txt c.txt ] ]\"

Options:
  --base-dir=<dir>              Resolve source names against <dir>
  --emit=result|tokens|tree     What to print (default: result)
  -h, --help                    Show this message

Results are printed to stdout, one integer per line. An error is printed
to stderr as a single SYNTAX/COMPILE/RUNTIME ERROR line and the exit status
is 1. Bad usage exits with status 2.

Set RUST_LOG (e.g. RUST_LOG=debug) to trace compilation and evaluation."

structure Exit where
  status : Nat
  stdout : String
  stderr : String
  deriving DecidableEq, Repr

def unlines (lines : List String) : String :=
  String.join (lines.map fun line => line ++ "\n")

def run (disk : Source.Disk) (arguments : List String) : Exit :=
  match parse arguments with
  | .error error => ⟨2, "", unlines ["error: " ++ error.message, "", usage]⟩
  | .ok .help => ⟨0, unlines [usage], ""⟩
  | .ok (.run program options) =>
      match render disk options program with
      | .ok lines => ⟨0, unlines lines, ""⟩
      | .error problem => ⟨1, "", unlines [problem.message]⟩

/-- The paths that a run of the command may open. -/
def paths (arguments : List String) : List String :=
  match parse arguments with
  | .ok (.run program { emit := .result, baseDir? }) =>
      match Program.compile .builtin program with
      | .ok e => e.sources.map (Source.resolve baseDir?)
      | .error _ => []
  | _ => []

end SetCalculator.CommandLine
