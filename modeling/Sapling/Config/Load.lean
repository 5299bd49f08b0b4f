import Sapling.Config.Reading
import Sapling.Task

/-!
# Finding the configuration

The configuration of a project stands in a file in its folder, or else in a file of the user, or
else is the usual one.  The next place is tried only where there is no file; a file that cannot be
read is an error.
-/

set_option autoImplicit false

namespace Sapling.Config

variable [Yaml.Library]

def projectFile : String := ".micro.yaml"

def userFolder : String := ".micro"

def userFile : String := "config.yaml"

inductive LoadError
  | unopened (error : FileError)
  | unread (error : ReadError)
  | negative (maxDepth : Int)
  | tooDeep (maxDepth : Int)

def LoadError.message (path : String) : LoadError → List UInt8
  | unopened error => Text.toBytes ("open " ++ path ++ ": " ++ error.message)
  | unread error => Text.toBytes ("parse config " ++ path ++ ": ") ++ error.message
  | negative maxDepth =>
    Text.toBytes ("config " ++ path ++ ": maxDepth must not be negative, got " ++ toString maxDepth)
  | tooDeep maxDepth =>
    Text.toBytes ("config " ++ path ++ ": maxDepth must be at most " ++ toString depthCeiling
      ++ ", got " ++ toString maxDepth)

/-- The bytes of an open file; a folder can be opened but not read. -/
def inputOf (path : String) : Entry → Except String (List UInt8)
  | .file bytes => .ok bytes
  | .folder => .error ("read " ++ path ++ ": " ++ FileError.isFolder.message)

/-- The configuration with a depth that can be used; no depth means the usual one. -/
def bounded (config : Config) : Except LoadError Config :=
  if config.maxDepth < 0 then .error (.negative config.maxDepth)
  else if config.maxDepth > depthCeiling then .error (.tooDeep config.maxDepth)
  else if config.maxDepth = 0 then .ok { config with maxDepth := usualDepth }
  else .ok config

def ofFound (path : String) : Except FileError Entry → Except LoadError Config
  | .error error => .error (.unopened error)
  | .ok entry =>
    match ofInput (inputOf path entry) with
    | .error error => .error (.unread error)
    | .ok config => config.bounded

/-- What came of the search: where the configuration is from, with no path for the usual one, and
the configuration or an error. -/
structure Loaded where
  path : String
  config : Except LoadError Config

def loadFirst : (paths : List String) → Task Loaded
  | [] => return ⟨"", .ok usual⟩
  | path :: rest => do
    match ← Task.lookAt path with
    | .error .notFound => loadFirst rest
    | found => return ⟨path, ofFound path found⟩

def projectPath (project : String) : String := Path.join project projectFile

def userPath (home : String) : String := Path.join home (userFolder ++ "/" ++ userFile)

/-- Finds the configuration of a project; the user's file counts where the user has a home. -/
def load (home : Option String) (project : String) : Task Loaded :=
  loadFirst (projectPath project :: (home.map userPath).toList)

end Sapling.Config
