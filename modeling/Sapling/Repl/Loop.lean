import Sapling.Config.Load
import Sapling.Repl.Session

/-!
# The read-eval-print loop

Inputs are read line by line, with a prompt before each line, until their brackets are closed.
-/

set_option autoImplicit false

namespace Sapling.Repl

variable [Yaml.Library]

def banner : String :=
  "micro REPL. Enter expressions as flow YAML, e.g. \x7blet: x, value: \x7blit: 1\x7d\x7d. "
    ++ "Type :help for commands.\n"

def mainPrompt : String := "micro> "

def furtherPrompt : String := "...    "

def historyPath (home : Option String) : String := Path.join (home.getD "") ".micro_history"

/-- What a prompt gives.  Where it is broken off, the lines of the input so far are lost. -/
inductive Prompted
  | line (bytes : List UInt8)
  | brokenOff

structure Loop where
  session : Session
  history : List (List UInt8)
  pending : List UInt8

namespace Loop

def start (config : Config) (runId : String) (history : List (List UInt8)) : Loop :=
  ⟨Session.start config runId, history, []⟩

def prompt (loop : Loop) : String := if loop.pending.isEmpty then mainPrompt else furtherPrompt

def colon : UInt8 := 58

def act (loop : Loop) (input : List UInt8) : Task (Loop × Said × Bool) :=
  let input := Text.trimBytes input
  if input.isEmpty then return (loop, .nothing, false)
  else do
    let oneLine := input.map fun byte => if byte = Text.lineFeed then 32 else byte
    let loop := { loop with history := rememberNew loop.history oneLine }
    if input.head? = some colon then
      let (session, said, ends) ← loop.session.command input
      return ({ loop with session }, said, ends)
    else
      let (session, said) := loop.session.eval Session.typed input
      return ({ loop with session }, said, false)

def takeLine (loop : Loop) (line : List UInt8) : Task (Loop × Said × Bool) :=
  let input := if loop.pending.isEmpty then line else loop.pending ++ Text.lineFeed :: line
  if isOpen input then return ({ loop with pending := input }, .nothing, false)
  else { loop with pending := [] }.act input

/-- Goes on until the loop ends or there is no more to read; `said` is what was said before. -/
def run (loop : Loop) (said : Said) : List Prompted → Task (Loop × Said)
  | [] => return (loop, said ++ .onOut (loop.prompt ++ "\n"))
  | .brokenOff :: rest => run { loop with pending := [] } (said ++ .onOut loop.prompt) rest
  | .line line :: rest => do
    let said := said ++ .onOut loop.prompt
    let (loop, more, ends) ← loop.takeLine line
    if ends then return (loop, said ++ more) else loop.run (said ++ more) rest

end Loop

def readHistory (home : Option String) : Task (List (List UInt8)) := do
  match ← Task.lookAt (historyPath home) with
  | .ok (.file bytes) => return historyOf bytes
  | _ => return []

def writeHistory (home : Option String) (history : List (List UInt8)) : Task Unit := do
  let _ ← Task.put (historyPath home) (historyFile history)

def converse (home : Option String) (runId : String) (config : Config) : Task Said := do
  let history ← readHistory home
  let input ← Task.readInput
  let prompted := (lines input).map fun line => Prompted.line line.bytes
  let (loop, said) ← (Loop.start config runId history).run (.onOut banner) prompted
  writeHistory home loop.history
  return said

end Sapling.Repl
