import Sapling.Limits
import Sapling.Yaml.Written

/-!
# Configuration

The settings that are read at the start: the depth to which calls may nest, a file for traces, and
whether diagnostics are shown for people.
-/

set_option autoImplicit false

namespace Sapling

structure Config where
  maxDepth : Int
  trace : String
  pretty : Bool
  deriving DecidableEq, Repr

namespace Config

def usual : Config := ⟨usualDepth, "", false⟩

/-- The configuration as a document.  Settings with nothing in them are left out. -/
def written (config : Config) : String :=
  let lines :=
    (if config.maxDepth = 0 then "" else "maxDepth: " ++ toString config.maxDepth ++ "\n")
    ++ (if config.trace.isEmpty then "" else "trace: " ++ Yaml.writtenText config.trace)
    ++ (if config.pretty then "pretty: true\n" else "")
  if lines.isEmpty then "\x7b\x7d\n" else lines

end Config
end Sapling
