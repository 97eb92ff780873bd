/-!
# Commands

What the command line asks for. `Command.ofArguments` reads the words of a command line; an option
is written `--name value`, `--name=value`, `-n value` or `-nvalue`, and everything behind `--` is
no option.
-/

namespace ProcedureChart

/-- What to generate, and how. Files and JSON texts are still unread. -/
structure GenerateOptions where
  count : Nat := 4
  seed : Option Nat := none
  /-- splits the routes among so many workers -/
  workers : Option Nat := none
  /-- the file of the budgets -/
  config : Option String := none
  /-- the JSON text of the wishes of the user -/
  constraints : Option String := none
  /-- whether the account of the run is printed as well -/
  diagnostics : Bool := false
  deriving Repr, DecidableEq

/-- What the command line asks for. -/
inductive Command where
  | eval (expression : String) (problem : Option String)
  | paths (chart : String) (diagram : Option String) (maxPaths : Nat)
  | generate (chart : String) (diagram : Option String) (options : GenerateOptions)
  /-- evaluates expressions line by line -/
  | repl (problem : Option String)
  deriving Repr, DecidableEq

/-- Why a command line is refused. -/
inductive UsageError where
  | noCommand
  | unknownCommand (name : String)
  | unexpectedArgument (word : String)
  | missingArgument (name : String)
  | valueExpected (option : String)
  | invalidNumber (option : String) (word : String)
  deriving Repr, DecidableEq

/-- The text of a usage error. -/
def UsageError.message : UsageError → String
  | noCommand => "a command is expected: eval, paths, generate or repl"
  | unknownCommand name => "unrecognized subcommand '" ++ name ++ "'"
  | unexpectedArgument word => "unexpected argument '" ++ word ++ "' found"
  | missingArgument name => "the argument <" ++ name ++ "> was not provided"
  | valueExpected option => "a value is required for '--" ++ option ++ "' but none was supplied"
  | invalidNumber option word => "invalid value '" ++ word ++ "' for '--" ++ option ++ "'"

/-- An option that a command knows. -/
structure CommandOption where
  name : String
  /-- the letter of the short form -/
  letter : Option Char := none
  /-- whether a value follows it -/
  hasValue : Bool := true
  deriving Repr, DecidableEq

/-- The words of a command line, sorted. -/
structure Arguments where
  plain : List String := []
  /-- the options given, with their values -/
  options : List (String × String) := []
  deriving Repr, DecidableEq

namespace Arguments

/-- The option that a word names, and the value that it holds itself. -/
def option? (known : List CommandOption) (word : String) : Option (CommandOption × Option String) :=
  match word.toList with
  | '-' :: '-' :: cs =>
    let name := cs.takeWhile (· != '=')
    (known.find? fun o => o.name == String.ofList name).map fun o =>
      (o, match cs.dropWhile (· != '=') with
        | [] => none
        | _ :: value => some (String.ofList value))
  | '-' :: c :: cs =>
    (known.find? fun o => o.letter == some c).map fun o =>
      (o, match cs with
        | [] => none
        | '=' :: value => some (String.ofList value)
        | value => some (String.ofList value))
  | _ => none

/-- Whether a word is written like an option. -/
def looksLikeOption (word : String) : Bool := word.startsWith "-" && word != "-"

/-- Sorts the words behind the name of a command. -/
def sort (known : List CommandOption) : List String → Except UsageError Arguments
  | [] => .ok {}
  | "--" :: rest => .ok { plain := rest }
  | word :: rest =>
    match option? known word with
    | none => do
      if looksLikeOption word then throw (.unexpectedArgument word)
      let others ← sort known rest
      return { others with plain := word :: others.plain }
    | some (o, some value) => do
      let others ← sort known rest
      return { others with options := (o.name, value) :: others.options }
    | some (o, none) =>
      if o.hasValue then
        match rest with
        | [] => .error (.valueExpected o.name)
        | value :: rest => do
          let others ← sort known rest
          return { others with options := (o.name, value) :: others.options }
      else do
        let others ← sort known rest
        return { others with options := (o.name, "") :: others.options }

/-- The value of an option. -/
def value? (a : Arguments) (name : String) : Option String := a.options.lookup name

/-- The number that an option has as its value. -/
def number? (a : Arguments) (name : String) : Except UsageError (Option Nat) :=
  match a.value? name with
  | none => .ok none
  | some word =>
    match word.toNat? with
    | some n => .ok (some n)
    | none => .error (.invalidNumber name word)

/-- The only plain argument. -/
def single (a : Arguments) (name : String) : Except UsageError String :=
  match a.plain with
  | [] => .error (.missingArgument name)
  | [word] => .ok word
  | _ :: word :: _ => .error (.unexpectedArgument word)

/-- Fails if there is a plain argument. -/
def noPlain (a : Arguments) : Except UsageError Unit :=
  match a.plain with
  | [] => .ok ()
  | word :: _ => .error (.unexpectedArgument word)

end Arguments

namespace Command

/-- The option for the values of a problem. -/
def problemOption : CommandOption := { name := "problem", letter := some 'p' }

/-- The option for the file of a diagram. -/
def diagramOption : CommandOption := { name := "diagram", letter := some 'd' }

/-- The options of the generation. -/
def generateOptions : List CommandOption := [
  diagramOption,
  { name := "count", letter := some 'c' },
  { name := "seed", letter := some 's' },
  { name := "workers", letter := some 'w' },
  { name := "config" },
  { name := "constraints" },
  { name := "diagnostics", hasValue := false }]

/-- The command of a command line. -/
def ofArguments : List String → Except UsageError Command
  | [] => .error .noCommand
  | "eval" :: words => do
    let a ← Arguments.sort [problemOption] words
    return .eval (← a.single "EXPRESSION") (a.value? "problem")
  | "paths" :: words => do
    let a ← Arguments.sort [diagramOption, { name := "max-paths" }] words
    let chart ← a.single "FLOWCHART_PATH"
    return .paths chart (a.value? "diagram") ((← a.number? "max-paths").getD 1000)
  | "generate" :: words => do
    let a ← Arguments.sort generateOptions words
    let chart ← a.single "FLOWCHART_PATH"
    let count ← a.number? "count"
    let seed ← a.number? "seed"
    let workers ← a.number? "workers"
    return .generate chart (a.value? "diagram") {
      count := count.getD 4
      seed
      workers
      config := a.value? "config"
      constraints := a.value? "constraints"
      diagnostics := (a.value? "diagnostics").isSome }
  | "repl" :: words => do
    let a ← Arguments.sort [problemOption] words
    a.noPlain
    return .repl (a.value? "problem")
  | name :: _ => .error (.unknownCommand name)

end Command

end ProcedureChart
