/-!
# Files

A folder with all that lies in it, and paths into it.  Paths are followed name by name, so that
every name but the last has to lead into a folder.
-/

set_option autoImplicit false

namespace Sapling

inductive Entry
  | file (bytes : List UInt8)
  | folder
  deriving DecidableEq

inductive FileError
  | notFound
  | notFolder
  | isFolder
  | invalidName
  | nameTooLong
  | denied
  | noSpace
  deriving DecidableEq, Repr

def FileError.message : FileError → String
  | notFound => "no such file or directory"
  | notFolder => "not a directory"
  | isFolder => "is a directory"
  | invalidName => "invalid argument"
  | nameTooLong => "file name too long"
  | denied => "permission denied"
  | noSpace => "no space left on device"

def Path.namesFrom : List Char → (name : List Char) → List String
  | [], name => [String.ofList name.reverse]
  | c :: rest, name =>
    if c = '/' then String.ofList name.reverse :: namesFrom rest [] else namesFrom rest (c :: name)

def Path.names (path : String) : List String := Path.namesFrom path.toList []

abbrev Place := List String

/-- A folder, by the places in it.  The top itself is not listed. -/
structure Files where
  entries : List (Place × Entry)

namespace Files

def empty : Files := ⟨[]⟩

def at? (files : Files) (place : Place) : Option Entry :=
  if place.isEmpty then some .folder else files.entries.lookup place

def put (files : Files) (place : Place) (entry : Entry) : Files :=
  ⟨(place, entry) :: files.entries.filter (·.1 != place)⟩

def addFolder (files : Files) (place : Place) : Files :=
  (List.range place.length).foldl
    (fun files n =>
      let place := place.take (n + 1)
      if (files.at? place).isSome then files else files.put place .folder)
    files

def addFile (files : Files) (place : Place) (bytes : List UInt8) : Files :=
  (files.addFolder place.dropLast).put place (.file bytes)

/-! ## Following paths -/

def longestName : Nat := 255

def longestPath : Nat := 4095

def follow (files : Files) : (names : List String) → (here : Place) → Except FileError Place
  | [], here => .ok here
  | name :: rest, here =>
    if files.at? here ≠ some .folder then .error .notFolder
    else if name = "" ∨ name = "." then files.follow rest here
    else if name = ".." then
      if here.isEmpty then .error .notFound else files.follow rest here.dropLast
    else if name.utf8ByteSize > longestName then .error .nameTooLong
    else if (files.at? (here ++ [name])).isNone then .error .notFound
    else files.follow rest (here ++ [name])

def names (path : String) : Except FileError (List String) :=
  -- a path from the root leads out of the folder, and so does none at all
  if path.toList.contains '\x00' then .error .invalidName
  else if path.isEmpty ∨ path.toList.head? = some '/' then .error .notFound
  else if path.utf8ByteSize > longestPath then .error .nameTooLong
  else .ok (Path.names path)

def find (files : Files) (path : String) : Except FileError Entry := do
  let place ← files.follow (← names path) []
  match files.at? place with
  | some entry => .ok entry
  | none => .error .notFound

def placeToWrite (files : Files) (path : String) : Except FileError Place := do
  let parts ← names path
  let ended := (parts.reverse.dropWhile (· == "")).reverse
  match ended.getLast? with
  | none => .error .isFolder
  | some name =>
    let here ← files.follow ended.dropLast []
    if files.at? here ≠ some .folder then .error .notFolder
    else if name = "." ∨ name = ".." ∨ ended.length < parts.length then .error .isFolder
    else if name.utf8ByteSize > longestName then .error .nameTooLong
    else if files.at? (here ++ [name]) = some .folder then .error .isFolder
    else .ok (here ++ [name])

def write (files : Files) (path : String) (bytes : List UInt8) : Except FileError Files :=
  (files.placeToWrite path).map fun place => files.put place (.file bytes)

end Files

/-! ## Paths -/

namespace Path

/-- Drops names that lead nowhere and pairs of a name and the way back; `done` holds the names so
far, last first. -/
def reduce (rooted : Bool) : List String → (done : List String) → List String
  | [], done => done.reverse
  | name :: rest, done =>
    if name = "" ∨ name = "." then reduce rooted rest done
    else if name = ".." then
      match done with
      | last :: before =>
        if last = ".." then reduce rooted rest (".." :: done) else reduce rooted rest before
      | [] => if rooted then reduce rooted rest [] else reduce rooted rest [".."]
    else reduce rooted rest (name :: done)

def clean (path : String) : String :=
  let rooted := path.toList.head? = some '/'
  let names := reduce rooted (names path) []
  let text := (if rooted then "/" else "") ++ "/".intercalate names
  if text.isEmpty then "." else text

def join (folder name : String) : String :=
  clean (if folder.isEmpty then name else folder ++ "/" ++ name)

end Path
end Sapling
