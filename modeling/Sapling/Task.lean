import Sapling.Files

/-!
# Tasks

A task is a piece of work that now and then asks for something outside: what a path leads to, a
file to be written, all of standard input, or the time.

The answers come from a store of any kind (`Task.runIn`), in which paths may lead to whatever there
is and may fail in every way, and in which time goes on as it likes.  A folder that is given as a
value is one such store.
-/

set_option autoImplicit false

namespace Sapling

inductive Task (α : Type)
  | done (value : α)
  | find (path : String) (next : Except FileError Entry → Task α)
  | write (path : String) (bytes : List UInt8) (next : Except FileError Unit → Task α)
  | input (next : List UInt8 → Task α)
  | time (next : String → Task α)

namespace Task

variable {α β : Type}

def bind (task : Task α) (rest : α → Task β) : Task β :=
  match task with
  | done value => rest value
  | find path next => find path fun answer => (next answer).bind rest
  | write path bytes next => write path bytes fun answer => (next answer).bind rest
  | input next => input fun bytes => (next bytes).bind rest
  | time next => time fun now => (next now).bind rest

instance : Monad Task where
  pure := done
  bind := bind

def lookAt (path : String) : Task (Except FileError Entry) := find path done

def put (path : String) (bytes : List UInt8) : Task (Except FileError Unit) := write path bytes done

def readInput : Task (List UInt8) := input done

def now : Task String := time done

def readFile (path : String) : Task (Except String (List UInt8)) := do
  match ← lookAt path with
  | .ok (.file bytes) => return .ok bytes
  | .ok .folder => return .error ("read " ++ path ++ ": " ++ FileError.isFolder.message)
  | .error error => return .error ("open " ++ path ++ ": " ++ error.message)

end Task

/-! ## Stores -/

/-- A store of files with a clock: what a path leads to, what is left when a file is written, and
what is left when the time is read. -/
structure FileStore (σ : Type) where
  find : σ → String → Except FileError Entry
  write : σ → String → List UInt8 → Except FileError σ
  now : σ → String × σ

/-- What comes of a task: its value, the paths it asked for in order, and what it leaves. -/
structure Task.Course (σ α : Type) where
  value : α
  asked : List String
  left : σ

namespace Task

variable {σ α β : Type}

def runIn (store : FileStore σ) (input : List UInt8) : Task α → σ → Course σ α
  | done value, files => ⟨value, [], files⟩
  | find path next, files =>
    let rest := (next (store.find files path)).runIn store input files
    { rest with asked := path :: rest.asked }
  | write path bytes next, files =>
    match store.write files path bytes with
    | .ok files => (next (.ok ())).runIn store input files
    | .error error => (next (.error error)).runIn store input files
  | Task.input next, files => (next input).runIn store input files
  | time next, files =>
    let (now, files) := store.now files
    (next now).runIn store input files

section Answers
variable (store : FileStore σ) (input : List UInt8)

@[simp]
theorem runIn_pure (value : α) (files : σ) :
    (pure value : Task α).runIn store input files = ⟨value, [], files⟩ := rfl

@[simp]
theorem runIn_lookAt (path : String) (files : σ) :
    (lookAt path).runIn store input files = ⟨store.find files path, [path], files⟩ := rfl

theorem runIn_put_ok {files after : σ} {path : String} {bytes : List UInt8}
    (written : store.write files path bytes = .ok after) :
    (put path bytes).runIn store input files = ⟨.ok (), [], after⟩ := by
  simp [put, runIn, written]

theorem runIn_put_error {files : σ} {path : String} {bytes : List UInt8} {error : FileError}
    (failed : store.write files path bytes = .error error) :
    (put path bytes).runIn store input files = ⟨.error error, [], files⟩ := by
  simp [put, runIn, failed]

@[simp]
theorem runIn_now (files : σ) :
    now.runIn store input files = ⟨(store.now files).1, [], (store.now files).2⟩ := rfl

/-- The second of two tasks finds what the first leaves, and asks after it. -/
@[simp]
theorem runIn_bind (task : Task α) (rest : α → Task β) (files : σ) :
    (task >>= rest).runIn store input files =
      let first := task.runIn store input files
      let second := (rest first.value).runIn store input first.left
      { second with asked := first.asked ++ second.asked } := by
  induction task generalizing files with
  | done value => rfl
  | find path next ih =>
    exact congrArg (fun course : Course σ β => { course with asked := path :: course.asked })
      (ih (store.find files path) files)
  | write path bytes next ih =>
    show ((write path bytes next).bind rest).runIn store input files = _
    simp only [bind, runIn]
    cases store.write files path bytes with
    | ok after => exact ih (.ok ()) after
    | error error => exact ih (.error error) files
  | input next ih => exact ih input files
  | time next ih => exact ih (store.now files).1 (store.now files).2

end Answers

end Task

/-! ## Files as values -/

def FileStore.byName : FileStore (List (String × List UInt8)) where
  find files path := match files.lookup path with
    | some bytes => .ok (.file bytes)
    | none => .error .notFound
  write files path bytes := .ok ((path, bytes) :: files)
  now files := ("", files)

def FileStore.folder (time : String) : FileStore Files :=
  ⟨Files.find, Files.write, fun files => (time, files)⟩

structure Task.Surroundings where
  files : Files
  input : List UInt8
  time : String

def Task.run {α : Type} (outside : Surroundings) (task : Task α) : α × Files :=
  let course := task.runIn (.folder outside.time) outside.input outside.files
  (course.value, course.left)

end Sapling
