/-!
# Arguments

The arguments of a command line, sorted into programs, options with a value,
and flags.

Arguments are read from left to right.  One that starts with two dashes names an
option or a flag; its value, if it has one, follows an `=` in the same argument
or is the next argument.  A next argument that starts with a dash is not taken
as the value; an option that never gets a value is an error.  One that starts
with one dash is a row of short flags, of which only those for help and for the
version exist.  A single dash, and everything after two dashes that stand alone,
is a program.
-/

namespace NodeGrid.CommandLine

/-- The options that take a value. -/
inductive ValueOption where
  | columns
  | capacity
  | input
  | expect
  | maxTicks
  | discipline
deriving DecidableEq

namespace ValueOption

/-- The options that take values. -/
def all : List ValueOption := [.columns, .capacity, .input, .expect, .maxTicks, .discipline]

/-- The name of the option, without its dashes. -/
def name : ValueOption → String
  | .columns => "columns"
  | .capacity => "capacity"
  | .input => "input"
  | .expect => "expect"
  | .maxTicks => "max-ticks"
  | .discipline => "discipline"

/-- Whether the option may be given more than once. -/
def isRepeatable : ValueOption → Bool
  | .input | .expect => true
  | .columns | .capacity | .maxTicks | .discipline => false

/-- Whether the option takes the value.  What a value means is judged later,
except where there is only a choice. -/
def admits : ValueOption → String → Bool
  | .discipline, value => value == "lockstep" || value == "first-settled"
  | _, _ => true

end ValueOption

/-- The options that take no value. -/
inductive Flag where
  | optimize
  | dumpPrograms
  | dumpResult
deriving DecidableEq

namespace Flag

/-- The options that take no values. -/
def all : List Flag := [.optimize, .dumpPrograms, .dumpResult]

/-- The name of the flag, without its dashes. -/
def name : Flag → String
  | .optimize => "optimize"
  | .dumpPrograms => "dump-programs"
  | .dumpResult => "dump-result"

end Flag

/-- Why arguments are not carried out. -/
inductive UsageError where
  /-- No program is given. -/
  | missingProgram
  /-- An option or flag that may be given once is given more often. -/
  | repeated
  | unknownArgument
  /-- An option is given without a value. -/
  | emptyValue
  /-- The option has no such choice. -/
  | invalidValue
  | helpRequested
  | versionRequested
deriving DecidableEq

/-- Arguments by kind, each in the order given. -/
structure Arguments where
  programs : List String
  /-- The options with their values. -/
  values : List (ValueOption × String)
  /-- Every mention of an option, with a value or without. -/
  mentions : List ValueOption
  flags : List Flag
deriving DecidableEq

namespace Arguments

/-- No arguments. -/
def empty : Arguments := ⟨[], [], [], []⟩

/-- The values given for an option. -/
def valuesOf (arguments : Arguments) (option : ValueOption) : List String :=
  (arguments.values.filter fun entry => entry.1 == option).map Prod.snd

/-- The value given for an option that takes one. -/
def value? (arguments : Arguments) (option : ValueOption) : Option String :=
  (arguments.valuesOf option).head?

/-- Whether the flag was given. -/
def has (arguments : Arguments) (flag : Flag) : Bool :=
  arguments.flags.contains flag

end Arguments

/-! ## Reading -/

/-- What has been read so far. -/
structure Reading where
  arguments : Arguments
  /-- The option whose value is to follow. -/
  awaiting : Option ValueOption
  /-- Whether only programs follow. -/
  programsOnly : Bool
deriving DecidableEq

namespace Reading

/-- Before the first text has been read. -/
def start : Reading := ⟨.empty, none, false⟩

/-- Reads the path of a program. -/
def addProgram (reading : Reading) (program : List Char) : Reading :=
  let arguments := reading.arguments
  { reading with
    arguments := { arguments with programs := arguments.programs ++ [String.ofList program] } }

/-- Reads a value of an option. -/
def addValue (reading : Reading) (option : ValueOption) (value : List Char) : Reading :=
  let arguments := reading.arguments
  { reading with
    arguments := { arguments with values := arguments.values ++ [(option, String.ofList value)] }
    awaiting := none }

/-- Mentions an option whose value follows in the next argument. -/
def await (reading : Reading) (option : ValueOption) : Reading :=
  { reading with awaiting := some option }

/-- Notes that an option was given. -/
def mention (reading : Reading) (option : ValueOption) : Reading :=
  let arguments := reading.arguments
  { reading with arguments := { arguments with mentions := arguments.mentions ++ [option] } }

/-- Reads a flag. -/
def addFlag (reading : Reading) (flag : Flag) : Reading :=
  let arguments := reading.arguments
  { reading with
    arguments := { arguments with flags := arguments.flags ++ [flag] }
    awaiting := none }

/-- Reads an argument that starts with two dashes: a name, and after an `=` a
value, which drops further `=` at its start. -/
def readLong (reading : Reading) (argument : List Char) : Except UsageError Reading :=
  let body := argument.dropWhile (· == '-')
  let name := String.ofList (body.takeWhile (· != '='))
  let rest := body.dropWhile (· != '=')
  match ValueOption.all.find? fun option => option.name == name with
  | some option =>
    let reading := reading.mention option
    .ok (if rest.isEmpty then reading.await option
      else reading.addValue option (rest.dropWhile (· == '=')))
  | none =>
    match Flag.all.find? fun flag => flag.name == name with
    | some flag => .ok (reading.addFlag flag)
    | none =>
      if name = "help" then .error .helpRequested
      else if name = "version" then .error .versionRequested
      else .error .unknownArgument

/-- Reads an argument that starts with a single dash, by its first letter. -/
def readShort (letter : Char) : Except UsageError Reading :=
  if letter = 'h' then .error .helpRequested
  else if letter = 'V' then .error .versionRequested
  else .error .unknownArgument

/-- Reads the next argument. -/
def next (reading : Reading) (argument : List Char) : Except UsageError Reading :=
  if reading.programsOnly then
    .ok (reading.addProgram argument)
  else
    match argument with
    | ['-', '-'] => .ok { reading with programsOnly := true }
    | '-' :: '-' :: _ => reading.readLong argument
    | '-' :: letter :: _ => readShort letter
    | _ =>
      match reading.awaiting with
      | some option => .ok (reading.addValue option argument)
      | none => .ok (reading.addProgram argument)

/-- Checks what has been read when no argument is left. -/
def finish (reading : Reading) : Except UsageError Arguments :=
  let arguments := reading.arguments
  if arguments.programs.isEmpty then
    .error .missingProgram
  else if arguments.mentions.any fun option => (arguments.valuesOf option).isEmpty then
    .error .emptyValue
  else if !arguments.values.all fun (option, value) => option.admits value then
    .error .invalidValue
  else if !(ValueOption.all.all fun option =>
      option.isRepeatable || arguments.mentions.count option ≤ 1) then
    .error .repeated
  else if !(Flag.all.all fun flag => arguments.flags.count flag ≤ 1) then
    .error .repeated
  else
    .ok arguments

end Reading

/-- Reads the arguments after the program's own name. -/
def Arguments.read (texts : List String) : Except UsageError Arguments := do
  let reading ← texts.foldlM (fun reading text => reading.next text.toList) Reading.start
  reading.finish

end NodeGrid.CommandLine
