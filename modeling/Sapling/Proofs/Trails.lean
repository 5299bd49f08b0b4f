import Sapling.Proofs.Runs
import Sapling.Proofs.Sites

/-!
# Where in the program a run is

Equal expressions may stand at several places, so a machine does not tell which of them it is
evaluating.  A trail follows the machine step by step and keeps the place of the node evaluated, the
place of the node that each frame belongs to, and for every function the place of the node that made
it.  `Program.Reaches` says which machines, with which trails, an execution goes through; an
execution is the whole of them (`Program.execute_reaches`).
-/

set_option autoImplicit false

namespace Sapling

abbrev Origins := Nat → Option NodePlace

structure Trail where
  here : NodePlace
  /-- The nodes of the frames; that of a call is the function node. -/
  pending : List NodePlace
  made : Origins

namespace Trail

def atStatement (index : Nat) (made : Origins) : Trail := ⟨⟨index, []⟩, [], made⟩

def record (trail : Trail) (id : Nat) : Origins :=
  fun other => if other = id then some trail.here else trail.made other

theorem record_self (trail : Trail) (id : Nat) : trail.record id id = some trail.here := if_pos rfl

theorem record_of_ne (trail : Trail) {id other : Nat} (different : other ≠ id) :
    trail.record id other = trail.made other := if_neg different

/-- Evaluating an expression goes to its first child, unless it is evaluated at once; a function
that is made takes the next identity. -/
def unfold (trail : Trail) (expr : Expr) (nextId : Nat) : Trail :=
  match expr with
  | .hole | .literal .. | .read .. => trail
  | .function .. => { trail with made := trail.record nextId }
  | .define .. | .binary .. | .guarded .. | .call .. =>
    { trail with here := trail.here.child 0, pending := trail.here :: trail.pending }

def turn (trail : Trail) (index : Nat) : Trail :=
  { trail with here := (trail.pending.headD trail.here).child index }

def drop (trail : Trail) : Trail := { trail with pending := trail.pending.tail }

/-- To the next argument, or into the body of the function that is called; `frames` are the frames
after that. -/
def call (trail : Trail) (frames : List Frame) : Trail :=
  match frames with
  | .argument _ _ _ done _ :: _ => trail.turn (done.length + 1)
  | .body _ closure _ _ _ :: _ =>
    let function := (trail.made closure.id).getD trail.here
    { trail with here := function.child 0, pending := function :: trail.pending.tail }
  | _ => trail

def resume (trail : Trail) (frame : Frame) (frames : List Frame) : Trail :=
  match frame with
  | .define .. | .operate .. => trail
  | .right .. => trail.turn 1
  | .branch .. => (trail.turn 1).drop
  | .callee .. | .argument .. => trail.call frames
  | .body _ closure _ rest _ => trail.turn (closure.body.length - rest.length)

/-- The trail after a step in which the frame on top takes an outcome and leaves `next`. -/
def accepted (trail : Trail) (frame : Frame) (next : Machine) : Trail :=
  match next.control with
  | .eval _ => trail.resume frame next.frames
  | .give _ => trail.drop

@[simp] theorem call_made (trail : Trail) (frames : List Frame) :
    (trail.call frames).made = trail.made := by
  unfold call
  split <;> rfl

@[simp] theorem accepted_made (trail : Trail) (frame : Frame) (next : Machine) :
    (trail.accepted frame next).made = trail.made := by
  unfold accepted
  split
  · cases frame with
    | callee span expr args => exact call_made trail _
    | argument span expr target done rest => exact call_made trail _
    | _ => rfl
  · rfl

theorem accepted_argument {trail : Trail} {frame : Frame} {next : Machine} {expr : Expr}
    {span : Option Span} {callee : Expr} {target : Value} {done : List Value} {rest : List Expr}
    {frames : List Frame} (calls : trail.resume frame = trail.call)
    (control : next.control = .eval expr)
    (top : next.frames = .argument span callee target done rest :: frames) :
    trail.accepted frame next = trail.turn (done.length + 1) := by
  simp only [accepted, control, calls, top, call]

theorem accepted_body {trail : Trail} {frame : Frame} {next : Machine} {expr : Expr}
    {span : Option Span} {closure : Closure} {args : List Value} {rest : List Expr}
    {caller : Scope} {frames : List Frame} {place : NodePlace}
    (calls : trail.resume frame = trail.call) (control : next.control = .eval expr)
    (top : next.frames = .body span closure args rest caller :: frames)
    (recorded : trail.made closure.id = some place) :
    trail.accepted frame next =
      ⟨place.child 0, place :: trail.pending.tail, trail.made⟩ := by
  simp only [accepted, control, calls, top, call, recorded, Option.getD_some]

def follow (trail : Trail) (m next : Machine) : Trail :=
  match m.control, m.frames with
  | .eval expr, _ => trail.unfold expr m.state.nextId
  | .give _, [] => trail
  | .give _, frame :: _ => trail.accepted frame next

end Trail

def Machine.opening (settings : Settings) (index : Nat) (statement : Expr) (scope : Scope)
    (state : EvalState) : Machine :=
  let state := state.openStatement settings index statement
  evaluating statement scope state (state.remaining settings) []

/-- The machines that an execution goes through, each with its trail and the index of the statement
that is executed. -/
inductive Program.Reaches (settings : Settings) (program : Program) (scope : Scope) (nextId : Nat) :
    Nat → Machine → Trail → Prop
  | start {statement : Expr} (found : program.statements[0]? = some statement) :
      Reaches settings program scope nextId 0
        (.opening settings 0 statement scope
          ((EvalState.start nextId).emit settings program.span.known? .runStart))
        (.atStatement 0 fun _ => none)
  | step {index : Nat} {m next : Machine} {trail : Trail}
      (reached : Reaches settings program scope nextId index m trail)
      (stepped : m.step settings = .inl next) :
      Reaches settings program scope nextId index next (trail.follow m next)
  | statement {index : Nat} {m : Machine} {trail : Trail} {done statement : Expr} {value : Value}
      {after : Scope} {state : EvalState}
      (reached : Reaches settings program scope nextId index m trail)
      (ended : m.step settings = .inr ⟨.ok value, after, state⟩)
      (current : program.statements[index]? = some done)
      (found : program.statements[index + 1]? = some statement) :
      Reaches settings program scope nextId (index + 1)
        (.opening settings (index + 1) statement after (state.closeStatement settings index done))
        (.atStatement (index + 1) trail.made)

/-- The execution of statements, the first of which has index `first`, ends with the evaluation of
the statement `index`: as its error, or as the value of the last statement. -/
def Execution.EndsAt (execution : Execution) (program : Program) (first index : Nat)
    (evaluated : Evaluated) : Prop :=
  execution.scope = evaluated.scope ∧
    match evaluated.outcome with
    | .error error => execution.error = some error ∧ first + execution.values.length = index
    | .ok value =>
      execution.error = none ∧ first + execution.values.length = index + 1 ∧
        execution.values.getLast? = some value ∧ index + 1 = program.statements.length

theorem Execution.EndsAt.prepend {execution : Execution} {program : Program} {first index : Nat}
    {evaluated : Evaluated} (ends : execution.EndsAt program (first + 1) index evaluated)
    (value : Value) :
    Execution.EndsAt { execution with values := value :: execution.values } program first index
      evaluated := by
  obtain ⟨scopeEq, outcome⟩ := ends
  refine ⟨scopeEq, ?_⟩
  cases ended : evaluated.outcome with
  | error error =>
    rw [ended] at outcome
    obtain ⟨failed, count⟩ := outcome
    refine ⟨failed, ?_⟩
    simp only [List.length_cons]
    omega
  | ok result =>
    rw [ended] at outcome
    obtain ⟨succeeded, count, last, complete⟩ := outcome
    refine ⟨succeeded, ?_, ?_, complete⟩
    · simp only [List.length_cons]
      omega
    · simp [List.getLast?_cons, last]

namespace Program

variable {settings : Settings} {program : Program} {scope : Scope} {nextId : Nat}

theorem Reaches.run {index : Nat} {m : Machine} {trail : Trail}
    (reached : program.Reaches settings scope nextId index m trail) :
    ∃ last later, program.Reaches settings scope nextId index last later ∧
      last.step settings = .inr (m.run settings) := by
  induction m using Machine.run_induction settings generalizing trail with
  | ended m evaluated step =>
    refine ⟨m, trail, reached, ?_⟩
    rw [Machine.run_of_end step]
    exact step
  | stepped m next step ih =>
    rw [Machine.run_of_step step]
    exact ih (reached.step step)

theorem executeFrom_endsAt_error {index : Nat} {statement : Expr} {current after : Scope}
    {state later : EvalState} {error : EvalError} (rest : List Expr)
    (failed : statement.evaluate settings current (state.openStatement settings index statement) =
      ⟨.error error, after, later⟩) :
    (executeFrom settings index (statement :: rest) current state).EndsAt program index index
      ⟨.error error, after, later⟩ := by
  rw [executeFrom_error rest failed]
  exact ⟨rfl, rfl, rfl⟩

theorem executeFrom_reaches (rest : List Expr) :
    ∀ {index : Nat} {statement : Expr} {current : Scope} {state : EvalState} {trail : Trail},
      program.statements.drop index = statement :: rest →
      program.Reaches settings scope nextId index
        (.opening settings index statement current state) trail →
      ∃ last m later evaluated, program.Reaches settings scope nextId last m later ∧
        m.step settings = .inr evaluated ∧
        (executeFrom settings index (statement :: rest) current state).EndsAt program index last
          evaluated := by
  induction rest with
  | nil =>
    intro index statement current state trail left reached
    obtain ⟨m, later, reachedEnd, ended⟩ := reached.run
    refine ⟨index, m, later, _, reachedEnd, ended, ?_⟩
    change Execution.EndsAt _ _ _ _ (statement.evaluate settings current _)
    cases evaluated : statement.evaluate settings current
        (state.openStatement settings index statement) with
    | mk outcome after final =>
      cases outcome with
      | error error => exact executeFrom_endsAt_error [] evaluated
      | ok value =>
        have complete : index + 1 = program.statements.length := by
          have lengths := congrArg List.length left
          simp only [List.length_drop, List.length_cons, List.length_nil] at lengths
          omega
        rw [executeFrom_ok [] evaluated]
        exact ⟨rfl, rfl, rfl, rfl, complete⟩
  | cons next rest ih =>
    intro index statement current state trail left reached
    obtain ⟨m, later, reachedEnd, ended⟩ := reached.run
    change m.step settings = .inr (statement.evaluate settings current _) at ended
    cases evaluated : statement.evaluate settings current
        (state.openStatement settings index statement) with
    | mk outcome after final =>
      rw [evaluated] at ended
      cases outcome with
      | error error =>
        exact ⟨index, m, later, _, reachedEnd, ended, executeFrom_endsAt_error _ evaluated⟩
      | ok value =>
        have here : program.statements[index]? = some statement := by
          rw [← Nat.add_zero index, ← List.getElem?_drop, left]
          rfl
        have there : program.statements[index + 1]? = some next := by
          rw [← List.getElem?_drop, left]
          rfl
        have remaining : program.statements.drop (index + 1) = next :: rest := by
          simpa using congrArg List.tail left
        obtain ⟨last, final, trail, result, reachedLast, endedLast, ends⟩ :=
          ih remaining (reachedEnd.statement ended here there)
        rw [executeFrom_ok _ evaluated]
        exact ⟨last, final, trail, result, reachedLast, endedLast, ends.prepend value⟩

theorem execute_reaches (settings : Settings) (program : Program) (scope : Scope) (nextId : Nat)
    (nonempty : program.statements ≠ []) :
    ∃ index m trail evaluated, program.Reaches settings scope nextId index m trail ∧
      m.step settings = .inr evaluated ∧
      (program.execute settings scope nextId).EndsAt program 0 index evaluated := by
  obtain ⟨statement, rest, split⟩ := List.exists_cons_of_ne_nil nonempty
  have first : program.statements[0]? = some statement := by simp [split]
  have whole : program.statements.drop 0 = statement :: rest := split
  have start : program.Reaches settings scope nextId 0 _ _ := .start first
  have ends := executeFrom_reaches rest whole start
  rw [← split] at ends
  exact ends

end Program
end Sapling
