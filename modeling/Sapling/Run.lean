import Sapling.Check
import Sapling.Config
import Sapling.Execute
import Sapling.Layout
import Sapling.Reading

/-!
# Running, checking and laying out documents

What can be done with a document: run it, check it, lay it out.  All three read it first and report
the same diagnostics where that fails.  A runtime runs documents one after another, all against the
scope that it refers to, or each against a new one.
-/

set_option autoImplicit false

namespace Sapling

variable [Yaml.Library]

inductive Problem
  | unreadable (diagnostics : List Diagnostic)
  | failed (code message : String) (span : Option Span)
  | other (message : String)
  | within (context : String) (problem : Problem)

namespace Problem

def ofEvalError (error : EvalError) : Problem :=
  .failed error.failure.code.text error.message error.span

def cause : Problem → Problem
  | within _ problem => problem.cause
  | problem => problem

def message : Problem → String
  | unreadable diagnostics => Text.join "; " (diagnostics.map fun d => d.code ++ ": " ++ d.message)
  | failed _ message _ => message
  | other message => message
  | within context problem => context ++ ": " ++ problem.message

/-- A problem as diagnostics; one of no known kind is a problem with files. -/
def diagnostics (problem : Problem) : List Diagnostic :=
  match problem.cause with
  | unreadable diagnostics => diagnostics
  | failed code message span => [⟨code, message, span, "", ""⟩]
  | _ => [.error .files problem.message none]

end Problem

def runDocument (settings : Settings) (file : String) (bytes : List UInt8) (scope : Scope)
    (nextId : Nat) : Except (List Diagnostic) Execution :=
  (readProgram file bytes).map fun program => program.execute settings scope nextId

def checkDocument (file : String) (bytes : List UInt8) : List Diagnostic :=
  match readProgram file bytes with
  | .error diagnostics => diagnostics
  | .ok program => checkProgram (some program)

def layoutDocument (file : String) (bytes : List UInt8) : Except (List Diagnostic) String :=
  (readProgram file bytes).map Program.layout

/-! ## Scopes that are shared -/

/-- Scopes in the order they were made.  A reference to one is its place. -/
structure Scopes where
  cells : List Scope

namespace Scopes

def empty : Scopes := ⟨[]⟩

def get (scopes : Scopes) (place : Nat) : Scope := scopes.cells.getD place Scope.empty

def set (scopes : Scopes) (place : Nat) (scope : Scope) : Scopes := ⟨scopes.cells.set place scope⟩

def add (scopes : Scopes) : Nat × Scopes := (scopes.cells.length, ⟨scopes.cells ++ [Scope.empty]⟩)

end Scopes

/-! ## Runtimes -/

structure Runtime where
  maxDepth : Int
  scope : Option Nat
  runId : String
  tracing : Bool

namespace Runtime

def plain : Runtime := ⟨0, none, "cli", false⟩

def withConfig (config : Config) (runtime : Runtime) : Runtime :=
  { runtime with maxDepth := config.maxDepth }

def withMaxDepth (maxDepth : Int) (runtime : Runtime) : Runtime := { runtime with maxDepth }

def withScope (place : Nat) (runtime : Runtime) : Runtime := { runtime with scope := some place }

def withRunId (runId : String) (runtime : Runtime) : Runtime := { runtime with runId }

def withTrace (runtime : Runtime) : Runtime := { runtime with tracing := true }

def new (options : List (Runtime → Runtime)) : Runtime :=
  options.foldl (fun runtime option => option runtime) plain

def settings (runtime : Runtime) : Settings :=
  ⟨effectiveDepth runtime.maxDepth, runtime.tracing, runtime.runId⟩

/-- Runs a document.  The scope that it ran against is left with its bindings, also where the run
failed. -/
def run (runtime : Runtime) (file : String) (bytes : List UInt8) (scopes : Scopes) (nextId : Nat) :
    Except (List Diagnostic) Execution × Scopes :=
  match runtime.scope with
  | none => (runDocument runtime.settings file bytes Scope.empty nextId, scopes)
  | some place =>
    match runDocument runtime.settings file bytes (scopes.get place) nextId with
    | .error diagnostics => (.error diagnostics, scopes)
    | .ok execution => (.ok execution, scopes.set place execution.scope)

end Runtime

end Sapling
