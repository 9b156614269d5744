import NodeGrid.CommandLine.Session

/-!
# The program

Reads the command line and the files it names, runs the session, and prints its
report.  All decisions are made by `CommandLine`; this file only talks to the
outside world.
-/

namespace NodeGrid.CommandLine

/-- What is printed when the command line cannot be carried out. -/
def usage : String :=
  "usage: nodegrid [--columns N] [--capacity N] [--input COL=v,..] [--expect COL=v,..] " ++
    "[--max-ticks N] [--discipline lockstep|first-settled] [--optimize] [--dump-programs] " ++
    "[--dump-result] PROGRAM..\n"

/-- The error with a number of the operating system, which may come negated. -/
def ReadError.ofCode (code : UInt32) (details : String) : ReadError :=
  match min code (0 - code) with
  | 2 => .missing
  | 20 => .notDirectory
  | 21 => .isDirectory
  | 36 => .nameTooLong
  | number => .other s!"{details} (os error {number})"

/-- The error that a failed attempt to read a file is reported as. -/
def ReadError.ofSystem : IO.Error → ReadError
  | .noFileOrDirectory _ code details
  | .permissionDenied _ code details
  | .inappropriateType _ code details
  | .invalidArgument _ code details
  | .otherError code details => .ofCode code details
  | error => .other (toString error)

/-- Reads a file as text. -/
def readText (path : String) : IO (Except ReadError String) := do
  try
    let bytes ← IO.FS.readBinFile path
    return textOfBytes bytes
  catch error => return .error (.ofSystem error)

/-- Reads the files in order, up to the first that cannot be read. -/
def readFiles : List String → IO (List (String × Except ReadError String))
  | [] => return []
  | path :: rest => do
    let content ← readText path
    if content.isOk then
      return (path, content) :: (← readFiles rest)
    else
      return [(path, content)]

/-- Prints a report and returns its exit code. -/
def Report.print (report : Report) : IO UInt32 := do
  IO.print report.stdout
  IO.eprint report.stderr
  return report.code.toUInt32

/-- Carries out the arguments of a command line. -/
def execute (texts : List String) : IO UInt32 := do
  match Arguments.read texts with
  | .error .helpRequested | .error .versionRequested =>
    IO.print usage
    return 0
  | .error _ =>
    IO.eprint usage
    return 1
  | .ok arguments =>
    match Config.ofArguments arguments with
    | .error error => (Session.invalid error).print
    | .ok config =>
      let files ← readFiles config.programs
      (Session.run config fun path => (files.lookup path).getD (.error .missing)).print

end NodeGrid.CommandLine

/-- Runs the program with the arguments of its command line. -/
def main (texts : List String) : IO UInt32 :=
  NodeGrid.CommandLine.execute texts
