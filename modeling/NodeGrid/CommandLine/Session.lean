import NodeGrid.Assembly.Written
import NodeGrid.CommandLine.Config
import NodeGrid.CommandLine.Directory
import NodeGrid.Node.Report
import NodeGrid.Peephole

/-!
# Sessions

One run of the program from the command line: what it loads, what it prints and
how it ends.  Reading files is left to the caller, which hands in a function
from paths to contents.
-/

namespace NodeGrid.CommandLine

/-- What a session prints, and the exit code it ends with. -/
structure Report where
  code : Nat
  stdout : String
  stderr : String
deriving DecidableEq

namespace Session

/-- The program in a file.  With optimisation it is replaced by the written form
of its optimised instructions. -/
def loadProgram (read : String → Except ReadError String) (optimize : Bool) (path : String) :
    Except String String := do
  let source ← (read path).mapError fun error => path ++ ": " ++ error.message
  if optimize then
    let compilation ← (Assembly.compile source).mapError fun error =>
      path ++ ": " ++ error.message
    return compilation.program.optimize.text
  else
    return source

/-- The layout of programs in rows of `columns` nodes. -/
def layout (columns capacity : Nat) (sources : List String) : Layout where
  rows := (sources.length + columns - 1) / columns
  cols := columns
  capacity
  placements := sources.mapIdx fun index source => ⟨index / columns, index % columns, source⟩

/-- The programs as they are loaded, each under the name of its node. -/
def programsText (columns : Nat) (sources : List String) : String :=
  String.join (sources.mapIdx fun index source =>
    s!"# node {index / columns}:{index % columns}\n" ++
      String.ofList (Text.trimEnd source.toList) ++ "\n\n")

/-- A list of values in brackets. -/
def valuesText (values : List Int64) : String :=
  let texts := values.map fun value => String.ofList (Text.writeValue value)
  "[" ++ ", ".intercalate texts ++ "]"

/-- What an output port has collected, and what was expected if that differs. -/
def outputText (suite : Suite) (port : Nat) (values : List Int64) : String :=
  let shortfall := match suite.outputs.find? port with
    | some expected =>
      if expected = values then "" else " (expected " ++ valuesText expected ++ ")"
    | none => ""
  s!"output {port}: " ++ valuesText values ++ shortfall ++ "\n"

/-- What came out of a run. -/
def evaluationText (suite : Suite) (evaluation : Evaluation) : String :=
  String.join (evaluation.outputs.map fun (port, values) => outputText suite port values) ++
    s!"ticks: {evaluation.ticks}\n" ++
    String.join (evaluation.backlog.map fun (port, count) => s!"input {port} backlog: {count}\n")

/-- The final state of all nodes. -/
def nodesText {n : Nat} (nodes : List (Node n)) : String :=
  "Final state of the nodes:\n" ++ String.join (nodes.map fun node => node.text ++ "\n")

/-- The report of a session that ends with an error. -/
def failure (stdout message : String) : Report :=
  ⟨2, stdout, "Failed to run the grid: " ++ message ++ "\n"⟩

/-- The report of a session that breaks off. -/
def crash (stdout message : String) : Report :=
  ⟨101, stdout, message ++ "\n"⟩

/-- Runs programs on a grid; `stdout` has been printed before.  The programs and the columns are
added up to find the number of rows, and their sum has to be a word. -/
def runGrid (config : Config) (sources : List String) (stdout : String) : Report :=
  if sources.length + config.columns < UInt64.size then
    match (layout config.columns config.capacity sources).build with
    | .error error => failure stdout error.message
    | .ok grid =>
      match (Bench.ofWiring grid.wiring config.suite config.discipline).run config.maxTicks with
      | .error fault => crash stdout fault.message
      | .ok (_, bench) =>
        let complete := bench.isComplete
        { code := if complete then 0 else 1
          stdout := stdout ++ evaluationText config.suite bench.evaluation ++
            (if complete then "completed\n" else "budget exhausted\n") ++
            (if config.dumpResult then nodesText bench.nodes else "")
          stderr := "" }
  else
    crash stdout "attempt to add with overflow"

/-- Runs what a configuration asks for. -/
def run (config : Config) (read : String → Except ReadError String) : Report :=
  match config.programs.mapM (loadProgram read config.optimize) with
  | .error message => failure "" message
  | .ok sources =>
    runGrid config sources (if config.dumpPrograms then programsText config.columns sources else "")

/-- The report on a configuration that makes no sense. -/
def invalid (error : ConfigError) : Report :=
  ⟨2, "", "Invalid arguments: " ++ error.message ++ "\n"⟩

end Session

end NodeGrid.CommandLine
