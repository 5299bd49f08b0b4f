import Sapling.Repl.Loop
import Sapling.Trace.Summary

/-!
# The command line

Commands as tasks: each takes its arguments and gives an exit code and what it says.
-/

set_option autoImplicit false

namespace Sapling.Cli

open Repl (Said)

variable [Yaml.Library]

inductive Exit
  | success
  | usage
  | diagnostics
  | runtime
  deriving DecidableEq, Repr

def Exit.code : Exit → Nat
  | success => 0
  | usage => 1
  | diagnostics => 2
  | runtime => 4

structure Report where
  exit : Exit
  said : Said

/-- Where a command is called: the user's home, the folder of the project, and the name of the run
if there is one. -/
structure Context where
  home : Option String
  project : String
  runId : String

def usage : String :=
  "usage: micro <command> [options]\n\n"
    ++ "commands:\n"
    ++ "  run <file> [--pretty] [--trace <path>] [--max-depth N]\n"
    ++ "  check <file> [--pretty]\n"
    ++ "  fmt <file>\n"
    ++ "  trace <file.jsonl> [--json|--text]\n"
    ++ "  repl\n"
    ++ "  config [--json]\n"

/-! ## Reports -/

def Report.ok (text : String) : Report := ⟨.success, .onOut text⟩

def Report.fail (exit : Exit) (text : String) : Report := ⟨exit, .onErr text⟩

def Report.diagnosed (exit : Exit) (diagnostics : List Diagnostic) (pretty : Bool) : Report :=
  .fail exit (Diagnostic.renderAll diagnostics pretty ++ "\n")

def Report.badConfig (path : String) (error : Config.LoadError) (hint : String) (pretty : Bool) :
    Report :=
  let message := error.message path
  let d := (Diagnostic.error .config (Text.ofBytes message) none).withHint hint
  let text := if pretty then d.pretty else Text.jsonList [d.jsonWith (Text.jsonOfBytes message)]
  .fail .usage (text ++ "\n")

def Report.unreadable (path : String) (pretty : Bool) : Report :=
  .diagnosed .usage [.error .files ("cannot read file: " ++ path) none] pretty

/-! ## Arguments -/

def isFile (argument : String) : Bool := argument.toList.head? != some '-' || argument == "-"

structure RunOptions where
  file : String
  pretty : Bool
  trace : String
  maxDepth : Option Nat
  deriving DecidableEq, Repr

/-- The runtime of a run.  A depth that is asked for counts before the one that is configured. -/
def RunOptions.runtime (options : RunOptions) (runId : String) (config : Config) : Runtime :=
  let depth := options.maxDepth.map fun maxDepth => Runtime.withMaxDepth maxDepth
  .new ([.withConfig config, .withRunId runId] ++ depth.toList)

def number? (text : String) : Option Int :=
  let (negative, digits) := Number.signed text.toList
  if digits.isEmpty then none
  else (Number.digitsIn? 10 digits).map fun n => if negative then -(n : Int) else n

def depth? (text : String) : Option Nat :=
  (number? text).bind fun n => if 0 < n ∧ n ≤ depthCeiling then some n.toNat else none

/-- Takes the arguments of a run; fails with a depth that cannot be asked for. -/
def RunOptions.take : List String → RunOptions → Except String RunOptions
  | [], options => .ok options
  | "--pretty" :: rest, options => take rest { options with pretty := true }
  | "--trace" :: path :: rest, options => take rest { options with trace := path }
  | "--max-depth" :: depth :: rest, options =>
    match depth? depth with
    | some depth => take rest { options with maxDepth := some depth }
    | none => .error depth
  | argument :: rest, options =>
    take rest (if isFile argument then { options with file := argument } else options)

/-! ## Commands -/

def readSource (file : String) : Task (Option (List UInt8 × String)) := do
  if file = "-" then return some (← Task.readInput, "<stdin>")
  match ← Task.readFile file with
  | .ok bytes => return some (bytes, file)
  | .error _ => return none

/-- Reads the clock once for each event; `done` holds the events that have their time, last
first. -/
def stampFrom : List TraceEvent → (done : List StampedEvent) → Task (List StampedEvent)
  | [], done => return done.reverse
  | event :: rest, done => do
    let time ← Task.now
    stampFrom rest (⟨time, event⟩ :: done)

def traceFile (events : List StampedEvent) : List UInt8 :=
  Text.toBytes (String.join (events.map fun stamped => stamped.json ++ "\n"))

def reportRun (pretty : Bool) : Except (List Diagnostic) Execution → Report
  | .error diagnostics => .diagnosed .diagnostics diagnostics pretty
  | .ok execution =>
    match execution.error with
    | some error => .diagnosed .runtime (Problem.ofEvalError error).diagnostics pretty
    | none =>
      .ok ((if pretty then execution.last.text else execution.last.json) ++ "\n")

/-- The report of a run with its trace, which may not have been written in full. -/
def Report.traced (report : Report) (trace : String) : Except FileError Unit → Report
  | .ok () => report
  | .error error =>
    let warning := "warning: trace file " ++ trace ++ ": write " ++ trace ++ ": " ++ error.message
    { report with said := report.said ++ .onErr (warning ++ "\n") }

def runSource (runtime : Runtime) (trace : String) (pretty : Bool)
    (source : List UInt8 × String) : Task Report := do
  let run (runtime : Runtime) := (runtime.run source.2 source.1 Scopes.empty 0).1
  if trace.isEmpty then return reportRun pretty (run runtime)
  match ← Task.put trace [] with
  | .error error =>
    let reason := "open " ++ trace ++ ": " ++ error.message
    return .diagnosed .usage [.error .files ("cannot open trace file: " ++ reason) none] pretty
  | .ok () =>
    let ran := run runtime.withTrace
    let events := match ran with
      | .ok execution => execution.events
      | .error _ => []
    let stamped ← stampFrom events []
    return (reportRun pretty ran).traced trace (← Task.put trace (traceFile stamped))

def runCommand (context : Context) (arguments : List String) : Task Report :=
  match RunOptions.take arguments ⟨"", false, "", none⟩ with
  | .error depth =>
    return .fail .usage ("invalid --max-depth: " ++ depth ++ " (want 1.." ++ toString depthCeiling
      ++ ")\n")
  | .ok options => do
    if options.file.isEmpty then
      return .fail .usage
        "usage: micro run <file> [--pretty] [--trace <path>] [--max-depth N]\n"
    let loaded ← Config.load context.home context.project
    match loaded.config with
    | .error error =>
      return .badConfig loaded.path error ("config file: " ++ loaded.path) options.pretty
    | .ok config =>
      let pretty := options.pretty || config.pretty
      let trace := if options.trace.isEmpty then config.trace else options.trace
      match ← readSource options.file with
      | none => return .unreadable options.file pretty
      | some source =>
        runSource (options.runtime context.runId config) trace pretty source

def reportCheck (pretty : Bool) (diagnostics : List Diagnostic) : Report :=
  let err := if diagnostics.isEmpty then "" else Diagnostic.renderAll diagnostics pretty ++ "\n"
  if Diagnostic.hasErrors diagnostics then .fail .diagnostics err
  else ⟨.success, ⟨if pretty then "No errors found.\n" else "[]\n", err⟩⟩

def checkCommand (arguments : List String) : Task Report := do
  let pretty := arguments.contains "--pretty"
  let file := (arguments.filter isFile).getLast?.getD ""
  if file.isEmpty then return .fail .usage "usage: micro check <file> [--pretty]\n"
  match ← readSource file with
  | none => return .unreadable file pretty
  | some (bytes, name) => return reportCheck pretty (checkDocument name bytes)

def layoutCommand (arguments : List String) : Task Report := do
  let file := (arguments.filter isFile).getLast?.getD ""
  if file.isEmpty then return .fail .usage "usage: micro fmt <file>\n"
  match ← readSource file with
  | none => return .unreadable file false
  | some (bytes, name) =>
    match layoutDocument name bytes with
    | .error diagnostics => return .diagnosed .diagnostics diagnostics false
    | .ok text => return .ok text

def traceCommand (arguments : List String) : Task Report := do
  let asText := (arguments.filter fun a => a == "--json" || a == "--text").getLast? == some "--text"
  let file := (arguments.filter fun a => a.toList.head? != some '-').getLast?.getD ""
  if file.isEmpty then
    return .fail .usage "usage: micro trace <file.jsonl> [--json|--text]\n"
  match ← Task.lookAt file with
  | .error _ => return .unreadable file false
  | .ok entry =>
    let summary := match entry with
      | .file bytes => TraceSummary.ofBytes bytes
      | .folder => TraceSummary.empty
    return .ok (if asText then summary.text else summary.json ++ "\n")

def configJson (path : String) (config : Config) : String :=
  let fields := [("maxDepth", toString config.maxDepth), ("pretty", toString config.pretty),
    ("source", Text.json path), ("trace", Text.json config.trace)]
  let lines := fields.map fun (key, value) => "  " ++ Text.json key ++ ": " ++ value
  "\x7b\n" ++ Text.join ",\n" lines ++ "\n\x7d\n"

def configCommand (context : Context) (arguments : List String) : Task Report := do
  let loaded ← Config.load context.home context.project
  match loaded.config with
  | .error error => return .badConfig loaded.path error "" true
  | .ok config =>
    if arguments.head? = some "--json" then return .ok (configJson loaded.path config)
    let source := if loaded.path.isEmpty then "defaults (no config file found)" else loaded.path
    return .ok ("# " ++ source ++ "\n" ++ config.written)

def replCommand (context : Context) : Task Report := do
  let loaded ← Config.load context.home context.project
  match loaded.config with
  | .error error => return .badConfig loaded.path error ("config file: " ++ loaded.path) true
  | .ok config => return ⟨.success, ← Repl.converse context.home context.runId config⟩

def command (context : Context) : (arguments : List String) → Task Report
  | [] => return .fail .usage usage
  | "run" :: rest => runCommand context rest
  | "check" :: rest => checkCommand rest
  | "fmt" :: rest => layoutCommand rest
  | "trace" :: rest => traceCommand rest
  | "repl" :: _ => replCommand context
  | "config" :: rest => configCommand context rest
  | "help" :: _ | "--help" :: _ | "-h" :: _ => return .ok usage
  | name :: _ => return .fail .usage ("Unknown command: " ++ name ++ "\n")

end Sapling.Cli
