import NodeGrid.CommandLine.Arguments
import NodeGrid.Layout
import NodeGrid.Text.Blank

/-!
# Configurations

What the arguments of a command line ask for.  Numbers may have blanks around
them.  An assignment has the form `COL=v,v,..`: a column and the values that are
fed into it or expected from it.  Assignments to the same column add up.
-/

namespace NodeGrid.CommandLine

/-- What a run of the program is to do. -/
structure Config where
  programs : List String
  columns : Nat
  capacity : Nat
  suite : Suite
  maxTicks : Nat
  optimize : Bool
  discipline : Discipline
  dumpPrograms : Bool
  dumpResult : Bool
deriving DecidableEq

/-- Why the values of options make no sense. -/
inductive ConfigError where
  | count (option : ValueOption) (value : String)
  | noColumns
  | assignment (option : ValueOption) (value : String)
  | column (option : ValueOption) (col columns : Nat)
  | discipline (message : String)
deriving DecidableEq

/-- What is reported when a configuration makes no sense. -/
def ConfigError.message : ConfigError → String
  | .count option value =>
    "--" ++ option.name ++ ": `" ++ value ++ "` is not a non-negative integer"
  | .noColumns => "--columns must be at least 1"
  | .assignment option value =>
    "--" ++ option.name ++ ": `" ++ value ++ "` does not have the form COL=v,v,.."
  | .column option col columns =>
    "--" ++ option.name ++
      s!": column {col} is outside of the {columns} column(s) of the grid"
  | .discipline message => "--discipline: " ++ message

/-- Reads the value of an option that counts something. -/
def readCountOption (option : ValueOption) (value : String) : Except ConfigError Nat :=
  match Text.readCount? (Text.trim value.toList) with
  | some count => .ok count
  | none => .error (.count option value)

/-- The count given for an option, or its default. -/
def countOr (arguments : Arguments) (option : ValueOption) (default : Nat) :
    Except ConfigError Nat :=
  match arguments.value? option with
  | some value => readCountOption option value
  | none => .ok default

/-- Reads values that are separated by commas; a blank text holds none. -/
def readValues? (text : List Char) : Option (List Int64) :=
  let values := Text.trim text
  if values.isEmpty then some []
  else (values.splitOn ',').mapM fun value => Text.readValue? (Text.trim value)

/-- Reads an assignment to a column.  The column is judged before the values. -/
def readAssignment (option : ValueOption) (columns : Nat) (value : String) :
    Except ConfigError (Nat × List Int64) :=
  let text := value.toList
  match text.dropWhile (· != '=') with
  | [] => .error (.assignment option value)
  | _ :: valuesText =>
    match Text.readCount? (Text.trim (text.takeWhile (· != '='))) with
    | none => .error (.assignment option value)
    | some col =>
      if columns ≤ col then .error (.column option col columns)
      else
        match readValues? valuesText with
        | none => .error (.assignment option value)
        | some values => .ok (col, values)

/-- Reads assignments in order into a table. -/
def readAssignments (option : ValueOption) (columns : Nat) (table : PortTable) :
    List String → Except ConfigError PortTable
  | [] => .ok table
  | value :: rest => do
    let (col, values) ← readAssignment option columns value
    readAssignments option columns (table.append col values) rest

namespace Config

/-- The configuration that the arguments ask for. -/
def ofArguments (arguments : Arguments) : Except ConfigError Config := do
  let columns ← countOr arguments .columns (max arguments.programs.length 1)
  if columns = 0 then
    .error .noColumns
  else
    let inputs ← readAssignments .input columns .empty (arguments.valuesOf .input)
    let outputs ← readAssignments .expect columns .empty (arguments.valuesOf .expect)
    let discipline ← match arguments.value? .discipline with
      | some name => (Discipline.ofName name).mapError .discipline
      | none => .ok .lockstep
    let capacity ← countOr arguments .capacity defaultCapacity
    let maxTicks ← countOr arguments .maxTicks defaultMaxTicks
    return {
      programs := arguments.programs
      columns
      capacity
      suite := ⟨inputs, outputs⟩
      maxTicks
      optimize := arguments.has .optimize
      discipline
      dumpPrograms := arguments.has .dumpPrograms
      dumpResult := arguments.has .dumpResult }

end Config

end NodeGrid.CommandLine
