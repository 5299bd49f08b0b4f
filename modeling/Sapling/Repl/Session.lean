import Sapling.Config
import Sapling.Repl.Input
import Sapling.Run
import Sapling.Task

/-!
# Sessions

A session runs inputs against one scope and obeys commands.  An input that fails keeps what it
bound before.  The session and its runtime refer to the scope each for itself; a new start makes a
new scope and a new runtime.
-/

set_option autoImplicit false

namespace Sapling.Repl

variable [Yaml.Library]

structure Said where
  out : String
  err : String

namespace Said

def nothing : Said := ⟨"", ""⟩

def onOut (text : String) : Said := ⟨text, ""⟩

def onErr (text : String) : Said := ⟨"", text⟩

def append (first second : Said) : Said := ⟨first.out ++ second.out, first.err ++ second.err⟩

instance : Append Said := ⟨append⟩

end Said

structure Session where
  config : Config
  runId : String
  scopes : Scopes
  place : Nat
  runtime : Runtime
  nextId : Nat

namespace Session

/-- A session with a scope and a runtime of its own, besides the scopes there are. -/
def fresh (config : Config) (runId : String) (scopes : Scopes) (nextId : Nat) : Session :=
  let (place, scopes) := scopes.add
  let runtime := Runtime.new [.withConfig config, .withScope place, .withRunId runId]
  ⟨config, runId, scopes, place, runtime, nextId⟩

def start (config : Config) (runId : String := "cli") : Session := fresh config runId Scopes.empty 0

def reset (session : Session) : Session :=
  fresh session.config session.runId session.scopes session.nextId

def scope (session : Session) : Scope := session.scopes.get session.place

def typed : String := "<repl>"

def complaint (d : Diagnostic) : String :=
  (if d.isError then "error" else "warning") ++ "[" ++ d.code ++ "]: " ++ d.message ++ "\n"

def complaints (problem : Problem) : Said :=
  .onErr (String.join (problem.diagnostics.map complaint))

def eval (session : Session) (file : String) (input : List UInt8) : Session × Said :=
  let (ran, scopes) := session.runtime.run file input session.scopes session.nextId
  match ran with
  | .error diagnostics => ({ session with scopes }, complaints (.unreadable diagnostics))
  | .ok execution =>
    let session := { session with scopes, nextId := execution.state.nextId }
    match execution.error with
    | some error => (session, complaints (.ofEvalError error))
    | none => (session, .onOut (execution.last.text ++ "\n"))

def help : String :=
  "\nREPL commands:\n"
    ++ "  :help            Show this help\n"
    ++ "  :quit / :exit    Exit the REPL\n"
    ++ "  :scope           List the top-level bindings\n"
    ++ "  :load <file>     Run a file into the current session\n"
    ++ "  :fmt <expr>      Pretty-print an expression without running it\n"
    ++ "  :reset           Start over with an empty top-level scope\n"

def bindings (scope : Scope) : String :=
  if scope.isEmpty then "(empty)\n"
  else String.join (scope.listing.map fun (name, value) => name ++ " = " ++ value ++ "\n")

def lowerCase (c : Char) : Char := if c = '\u0130' then 'i' else c.toLower

inductive Command
  | help
  | quit
  | reset
  | scope
  | load
  | layout
  | unknown
  deriving DecidableEq, Repr

def Command.ofWord (word : String) : Command :=
  match String.ofList (word.toList.map lowerCase) with
  | ":help" => help
  | ":quit" | ":exit" => quit
  | ":reset" => reset
  | ":scope" => scope
  | ":load" => load
  | ":fmt" => layout
  | _ => unknown

/-- The part of a line behind its first word, if the line starts with it. -/
def behind (word : String) (line : List UInt8) : List UInt8 :=
  let bytes := Text.toBytes word
  Text.trimBytes (if bytes.isPrefixOf line then line.drop bytes.length else line)

def layout (input : List UInt8) : Said :=
  if input.isEmpty then .onErr "usage: :fmt <expr>\n"
  else match layoutDocument typed input with
    | .error diagnostics => complaints (.unreadable diagnostics)
    | .ok text => .onOut text

def loadFile (session : Session) (path : String) : Task (Session × Said) := do
  match ← Task.readFile path with
  | .error reason => return (session, .onErr ("cannot read " ++ path ++ ": " ++ reason ++ "\n"))
  | .ok bytes => return session.eval path bytes

/-- Obeys a command; the last part of the result says whether the session ends. -/
def command (session : Session) (line : List UInt8) : Task (Session × Said × Bool) :=
  let words := Text.words (Text.ofBytes line)
  match words with
  | [] => return (session, .nothing, false)
  | word :: arguments =>
    match Command.ofWord word with
    | .help => return (session, .onOut help, false)
    | .quit => return (session, .nothing, true)
    | .reset => return (session.reset, .onOut "scope reset.\n", false)
    | .scope => return (session, .onOut (bindings session.scope), false)
    | .load =>
      match arguments with
      | [] => return (session, .onErr "usage: :load <file>\n", false)
      | path :: _ => do
        let (session, said) ← session.loadFile path
        return (session, said, false)
    | .layout => return (session, layout (behind word line), false)
    | .unknown => return (session, .onErr "unknown command. Type :help for help.\n", false)

end Session
end Sapling.Repl
