import SetCalculator.CommandLine

/-!
# The program

Reads the files that the arguments may lead to, and leaves the rest to
`CommandLine.run`.
-/

namespace SetCalculator

/-- The number of a system error. Some calls report it negated. -/
def errorNumber (code : UInt32) : UInt32 := min code (0 - code)

/-- The fault that a system error stands for, from its number and its words. -/
def fileFault (code : UInt32) (details : String) : Source.Fault :=
  match errorNumber code with
  | 20 => .notADirectory
  | 21 => .isADirectory
  | 36 => .nameTooLong
  | number =>
      .other (details.capitalize ++ " (os error " ++ toString number ++ ")")

/-- What a system error says about opening or reading a file. -/
def fileError : IO.Error → Source.OpenError
  | .noFileOrDirectory .. => .notFound
  | .inappropriateType _ code details => .fault (fileFault code details)
  | .permissionDenied _ code details => .fault (fileFault code details)
  | .invalidArgument _ code details => .fault (fileFault code details)
  | .otherError code details => .fault (fileFault code details)
  | error => .fault (.other error.toString)

def readPath (path : String) : IO (Except Source.OpenError Source.Stream) := do
  try
    let bytes ← IO.FS.readBinFile path
    return .ok ⟨bytes.toList, none⟩
  catch error =>
    return .error (fileError error)

end SetCalculator

open SetCalculator in
/-- Runs the command on the files of the system. -/
def main (arguments : List String) : IO UInt32 := do
  let files ← (CommandLine.paths arguments).eraseDups.mapM fun path => do
    return (path, ← readPath path)
  let disk : Source.Disk := fun path =>
    (files.lookup path).getD (.error .notFound)
  let exit := CommandLine.run disk arguments
  IO.print exit.stdout
  IO.eprint exit.stderr
  return exit.status.toUInt32
