import SetCalculator.Source.Loader
import SetCalculator.Text.Lines

/-!
# Sources in files

A source name is a path, taken from a base directory when there is one and from
the working directory otherwise. Opening the path gives a stream of bytes, and
the bytes are cut into lines before they are decoded: a line that is not UTF-8
spoils only itself and what comes after it, so the lines before it are still
read.
-/

namespace SetCalculator.Source

/-- The bytes of an open file, and the fault that ends them early if there is
one. -/
structure Stream where
  bytes : List UInt8
  fault? : Option Fault

namespace Stream

/-- The line that some bytes encode. -/
def decode (bytes : List UInt8) : LineItem :=
  match String.fromUTF8? bytes.toByteArray with
  | some line => .ok line
  | none => .error .notUtf8

/-- The items up to the first fault, which is the last of them. -/
def untilFault (items : List LineItem) : List LineItem :=
  items.takeWhile Except.isOk ++ (items.find? fun item => !item.isOk).toList

/-- The lines of a stream. One that a fault cuts short is lost, and the fault
stands in its place. Nothing follows the first fault. -/
def lines (stream : Stream) : List LineItem :=
  match stream.fault? with
  | none => untilFault ((Text.splitLines 10 13 stream.bytes).map decode)
  | some fault =>
      untilFault
        ((Text.endedLines 10 13 stream.bytes).map decode ++ [.error fault])

end Stream

/-- A file system, as far as sources need one: opens a path for reading. -/
abbrev Disk := String → Except OpenError Stream

/-- Whether a path starts at the root of the file system. -/
def isAbsolute (path : String) : Bool :=
  path.toList.head? == some '/'

/-- The path that a source name stands for. An absolute name leaves the base
directory aside; any other is put behind it, with a slash between the two unless
the base is empty or ends in one. Nothing else of either is changed. -/
def resolve (base? : Option String) (name : String) : String :=
  match base? with
  | none => name
  | some base =>
      if isAbsolute name then name
      else if base.isEmpty || base.toList.getLast? == some '/' then base ++ name
      else base ++ "/" ++ name

/-- The lines of the file that a source name stands for. -/
def fileLoader (disk : Disk) (base? : Option String) : Loader := fun name =>
  (disk (resolve base? name)).map Stream.lines

end SetCalculator.Source
