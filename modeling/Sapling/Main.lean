import Sapling.Cli
import Std.Time.DateTime.Timestamp

/-!
# The program

Tasks carried out with the files, the input and the clock of the machine.
-/

set_option autoImplicit false

namespace Sapling

def FileError.ofException (exception : IO.Error) : FileError :=
  match exception with
  | .noFileOrDirectory .. => .notFound
  | .permissionDenied .. => .denied
  | .resourceExhausted .. => .noSpace
  | .inappropriateType _ code _ => if code = 20 then .notFolder else .isFolder
  | _ => .invalidName

def findPath (path : String) : IO (Except FileError Entry) := do
  try
    return .ok (.file (← IO.FS.readBinFile path).toList)
  catch exception =>
    match FileError.ofException exception with
    | .isFolder => return .ok .folder
    | error => return .error error

def writePath (path : String) (bytes : List UInt8) : IO (Except FileError Unit) := do
  try
    IO.FS.writeBinFile path ⟨bytes.toArray⟩
    return .ok ()
  catch exception => return .error (FileError.ofException exception)

partial def readAll (stream : IO.FS.Stream) (done : ByteArray) : IO ByteArray := do
  let bytes ← stream.read 65536
  if bytes.isEmpty then return done else readAll stream (done ++ bytes)

/-- The home of the user; an empty name counts as none. -/
def homeFolder : IO (Option String) := return (← IO.getEnv "HOME").filter (· != "")

def currentTime : IO String := do
  let now ← Std.Time.Timestamp.now
  return (Moment.ofUnix now.toNanosecondsSinceUnixEpoch.val.toNat).text

def Task.perform {α : Type} : Task α → IO α
  | .done value => return value
  | .find path next => do (next (← findPath path)).perform
  | .write path bytes next => do (next (← writePath path bytes)).perform
  | .input next => do (next (← readAll (← IO.getStdin) ByteArray.empty).toList).perform
  | .time next => do (next (← currentTime)).perform

def say (said : Repl.Said) : IO Unit := do
  let out ← IO.getStdout
  out.putStr said.out
  out.flush
  (← IO.getStderr).putStr said.err

def randomId : IO String := do
  let bytes := (← IO.getRandomBytes 16).toList
  let marked := bytes.mapIdx fun index byte =>
    if index = 6 then byte % 16 + 64 else if index = 8 then byte % 64 + 128 else byte
  let digits := marked.map fun byte => Text.hex 2 byte.toNat
  let part (start count : Nat) := String.join ((digits.drop start).take count)
  return Text.join "-" [part 0 4, part 4 2, part 6 2, part 8 2, part 10 6]

partial def talk (loop : Repl.Loop) : IO Repl.Loop := do
  say (.onOut loop.prompt)
  let line ← (← IO.getStdin).getLine
  if line.isEmpty then
    say (.onOut "\n")
    return loop
  let bytes := (Text.toBytes line).filter (· != Text.lineFeed)
  let (loop, said, ends) ← (loop.takeLine (Text.dropReturn bytes)).perform
  say said
  if ends then return loop else talk loop

def converseAtTerminal (context : Cli.Context) : IO Bool := do
  let loaded ← (Config.load context.home context.project).perform
  match loaded.config with
  | .error _ => return false
  | .ok config =>
    let history ← (Repl.readHistory context.home).perform
    say (.onOut Repl.banner)
    let loop ← talk (Repl.Loop.start config context.runId history)
    (Repl.writeHistory context.home loop.history).perform
    return true

end Sapling

open Sapling in
def main (arguments : List String) : IO UInt32 := do
  let project := (← IO.currentDir).toString
  let context : Cli.Context := ⟨← homeFolder, project, ← randomId⟩
  if arguments.head? = some "repl" then
    if ← converseAtTerminal context then return 0
  let report ← (Cli.command context arguments).perform
  say report.said
  return report.exit.code.toUInt32
