import ProcedureChart.Chart.Basic
import ProcedureChart.Command
import ProcedureChart.Generate.Record
import ProcedureChart.Generate.Run
import ProcedureChart.Json.Parser
import ProcedureChart.Json.Printer
import ProcedureChart.Route.Record

/-!
# The command line

Evaluates an expression, analyzes a chart, generates examples, or evaluates expressions line by
line. Results are printed as indented JSON; a failure is told on the error stream and ends the
program with exit code 1, a command line that is not understood with exit code 2.
-/

namespace ProcedureChart.Main

/-- The failure with a message. -/
def failure {α : Type} (message : String) : IO α := throw (IO.userError message)

/-- What an answer holds, or the failure with the message for its absence. -/
def orFail {α : Type} (message : String) : Option α → IO α
  | some a => pure a
  | none => failure message

/-- The contents of a file. -/
def readText (what path : String) : IO String :=
  try IO.FS.readFile path
  catch e => failure ("Failed to read " ++ what ++ " '" ++ path ++ "': " ++ toString e)

/-- Reads a record from a JSON text. -/
def readRecord {α : Type} (what : String) (read : Json → Option α) (text : String) : IO α :=
  orFail ("Failed to parse " ++ what) ((Json.parse text).bind read)

/-- The problem of an option. -/
def readProblem : Option String → IO Scope
  | none => pure .empty
  | some text => readRecord "problem JSON" Scope.ofJson? text

/-- The chart in a file, with the diagram in another one. -/
def readChart (path : String) (diagram : Option String) : IO Chart := do
  let definition ← readText "flowchart file" path
  let diagram ← diagram.mapM fun path => do
    let text ← readText "diagram file" path
    orFail ("Invalid diagram: " ++ ChartError.malformed.message) (Diagram.parse? text)
  let definition ←
    orFail ("Invalid flowchart: " ++ ChartError.malformed.message) (Definition.parse? definition)
  match Chart.load definition diagram with
  | .error error => failure ("Failed to load flowchart: " ++ error.message)
  | .ok chart =>
    match chart.checkReferences with
    | .error error => failure error.message
    | .ok () => pure chart

/-- Prints a JSON value. -/
def print (j : Json) : IO Unit := IO.println j.renderIndented

/-- Prints the value of an expression. -/
def eval (expression : String) (problem : Option String) : IO Unit := do
  let problem ← readProblem problem
  match Expr.evaluate expression { problem } with
  | .ok v => print v.toJson
  | .error error => failure ("Evaluation failed: " ++ error.message)

/-- Prints the routes of a chart and its statistics. -/
def paths (chart : String) (diagram : Option String) (maxPaths : Nat) : IO Unit := do
  let chart ← readChart chart diagram
  print (chart.analyze { maxPaths }).toJson

/-- Prints generated examples. -/
def generate (chart : String) (diagram : Option String) (o : GenerateOptions) : IO Unit := do
  let chart ← readChart chart diagram
  let config ← match o.config with
    | none => pure {}
    | some path => do
      readRecord "generator config" Config.ofJson? (← readText "generator config" path)
  let user ← match o.constraints with
    | none => pure {}
    | some text => readRecord "generation constraints" UserConstraints.ofJson? text
  let seed ← match o.seed with
    | some seed => pure seed
    | none => IO.rand 0 (Numeric.twoPow 32 - 1)
  let plan := Plan.make chart config user
  match o.workers with
  | some workers => print (Json.ofList Example.toJson (plan.generateSplit o.count workers seed))
  | none =>
    let ((examples, report), _) := plan.generate o.count (Mulberry32.ofSeed seed)
    let examples := Json.ofList Example.toJson examples
    print (if o.diagnostics then
      .object [("examples", examples), ("diagnostics", report.toJson)] else examples)

/-- Evaluates expressions line by line, until a line is blank. -/
def repl (problem : Option String) : IO Unit := do
  IO.println "--- Interactive Mode ---"
  let problem ← readProblem problem
  let input ← IO.getStdin
  repeat
    IO.print "> expr: "
    (← IO.getStdout).flush
    let line := String.ofList (Text.trim (← input.getLine).toList)
    if line.isEmpty then break
    match Expr.evaluate line { problem } with
    | .ok v => IO.println ("  = " ++ v.display)
    | .error error => IO.println ("  ! " ++ error.message)

/-- Carries out a command. -/
def run : Command → IO Unit
  | .eval expression problem => eval expression problem
  | .paths chart diagram maxPaths => paths chart diagram maxPaths
  | .generate chart diagram options => generate chart diagram options
  | .repl problem => repl problem

end ProcedureChart.Main

/-- Runs the command line. -/
def main (words : List String) : IO UInt32 := do
  match ProcedureChart.Command.ofArguments words with
  | .error error =>
    IO.eprintln ("error: " ++ error.message)
    return 2
  | .ok command =>
    try
      ProcedureChart.Main.run command
      return 0
    catch error =>
      IO.eprintln ("\nError: " ++ toString error)
      return 1
