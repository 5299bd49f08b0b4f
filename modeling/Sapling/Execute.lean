import Sapling.Eval.Machine

/-!
# Executing programs

The statements of a program are evaluated in order against one scope.  Execution stops at the
first that fails; what came before it keeps its values and bindings.
-/

set_option autoImplicit false

namespace Sapling

/-- What is left of an execution: the values of the statements that completed, and the error of the
one that did not. -/
structure Execution where
  values : List Value
  error : Option EvalError
  scope : Scope
  state : EvalState

namespace Execution

def last (execution : Execution) : Value := execution.values.getLast?.getD .undefined

def stats (execution : Execution) : Tracker := execution.state.tracker

def events (execution : Execution) : List TraceEvent := execution.state.events.reverse

end Execution

/-- Nothing has happened yet; functions made from here on take their identities from `nextId`. -/
def EvalState.start (nextId : Nat) : EvalState := ⟨Tracker.zero, nextId, []⟩

def EvalState.openStatement (state : EvalState) (settings : Settings) (index : Nat)
    (statement : Expr) : EvalState :=
  let state :=
    state.emit settings statement.span.known? (.statementStart index statement.kind)
  { state with tracker := { state.tracker with statements := state.tracker.statements + 1 } }

def EvalState.closeStatement (state : EvalState) (settings : Settings) (index : Nat)
    (statement : Expr) : EvalState :=
  state.emit settings statement.span.known? (.statementEnd index)

def executeFrom (settings : Settings) : Nat → List Expr → Scope → EvalState → Execution
  | _, [], scope, state => ⟨[], none, scope, state⟩
  | index, statement :: rest, scope, state =>
    match statement.evaluate settings scope (state.openStatement settings index statement) with
    | ⟨.error error, scope, state⟩ => ⟨[], some error, scope, state⟩
    | ⟨.ok value, scope, state⟩ =>
      let after :=
        executeFrom settings (index + 1) rest scope (state.closeStatement settings index statement)
      { after with values := value :: after.values }

def Program.execute (settings : Settings) (program : Program) (scope : Scope) (nextId : Nat) :
    Execution :=
  let place := program.span.known?
  let start := (EvalState.start nextId).emit settings place .runStart
  let execution := executeFrom settings 0 program.statements scope start
  { execution with
    state := execution.state.emit settings place
      (.runEnd (execution.error.map EvalError.message)) }

end Sapling
