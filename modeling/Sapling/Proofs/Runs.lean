import Sapling.Execute

/-!
# Following a run

A run of the machine is followed one step at a time: what every step keeps holds at the end
(`Machine.run_preserves`).  To the statistics a step does one of three things: nothing, open a call,
or close one (`Machine.step_effect`).  Hence an evaluation leaves as many calls open as it found
(`Expr.evaluate_depth`), and the most calls ever open never become fewer
(`Machine.maxSeen_le_run`).
-/

set_option autoImplicit false

namespace Sapling

namespace EvalState

@[simp] theorem emit_tracker (state : EvalState) (settings : Settings) (span : Option Span)
    (step : TraceStep) : (state.emit settings span step).tracker = state.tracker := by
  unfold emit
  split <;> rfl

@[simp] theorem enter_tracker (state : EvalState) (settings : Settings) (span : Option Span)
    (name : String) (args : Nat) :
    (state.enter settings span name args).tracker = state.tracker.enter := by
  simp [enter]

@[simp] theorem leave_tracker (state : EvalState) (settings : Settings) (span : Option Span)
    (name : String) (error : Option String) :
    (state.leave settings span name error).tracker = state.tracker.leave := by
  simp [leave]

@[simp] theorem openStatement_tracker (state : EvalState) (settings : Settings) (index : Nat)
    (statement : Expr) :
    (state.openStatement settings index statement).tracker =
      { state.tracker with statements := state.tracker.statements + 1 } := by
  simp [openStatement]

@[simp] theorem closeStatement_tracker (state : EvalState) (settings : Settings) (index : Nat)
    (statement : Expr) :
    (state.closeStatement settings index statement).tracker = state.tracker := by
  simp [closeStatement]

@[simp] theorem emit_nextId (state : EvalState) (settings : Settings) (span : Option Span)
    (step : TraceStep) : (state.emit settings span step).nextId = state.nextId := by
  unfold emit
  split <;> rfl

@[simp] theorem enter_nextId (state : EvalState) (settings : Settings) (span : Option Span)
    (name : String) (args : Nat) :
    (state.enter settings span name args).nextId = state.nextId := by
  simp [enter]

@[simp] theorem leave_nextId (state : EvalState) (settings : Settings) (span : Option Span)
    (name : String) (error : Option String) :
    (state.leave settings span name error).nextId = state.nextId := by
  simp [leave]

@[simp] theorem openStatement_nextId (state : EvalState) (settings : Settings) (index : Nat)
    (statement : Expr) :
    (state.openStatement settings index statement).nextId = state.nextId := by
  simp [openStatement]

@[simp] theorem closeStatement_nextId (state : EvalState) (settings : Settings) (index : Nat)
    (statement : Expr) :
    (state.closeStatement settings index statement).nextId = state.nextId := by
  simp [closeStatement]

end EvalState

/-! ## What an operator gives -/

inductive Operated (symbol : String) (span : Option Span) : Outcome → Prop
  | number (value : Float) : Operated symbol span (.ok (.number value))
  | boolean (value : Bool) : Operated symbol span (.ok (.boolean value))
  | undefinedOperand : Operated symbol span (.error ⟨.undefinedOperand symbol, span⟩)
  | wrongOperand (type : String) : Operated symbol span (.error ⟨.wrongOperand symbol type, span⟩)
  | unknownOperator (unknown : Operator.ofSymbol? symbol = none) :
      Operated symbol span (.error ⟨.unknownOperator symbol, span⟩)

theorem operand_error {symbol : String} {span : Option Span} {value : Value} {error : EvalError}
    (failed : operand symbol span value = .error error) :
    Operated symbol span (.error error) := by
  cases value with
  | undefined =>
    cases failed
    exact .undefinedOperand
  | number value => cases failed
  | boolean value =>
    cases failed
    exact .wrongOperand _
  | function closure =>
    cases failed
    exact .wrongOperand _

theorem operate_operated (symbol : String) (span : Option Span) (left right : Value) :
    Operated symbol span (operate symbol span left right) := by
  unfold operate
  cases first : operand symbol span left with
  | error error => exact operand_error first
  | ok a =>
    cases second : operand symbol span right with
    | error error => exact operand_error second
    | ok b =>
      simp only [bind, Except.bind]
      split
      · exact .number _
      · exact .number _
      · exact .boolean _
      · rename_i unknown
        exact .unknownOperator unknown

namespace Machine

/-! ## From steps to runs -/

/-- Induction along a run, from its end back to where it starts. -/
theorem run_induction (settings : Settings) {motive : Machine → Prop}
    (ended : ∀ m evaluated, m.step settings = .inr evaluated → motive m)
    (stepped : ∀ m next, m.step settings = .inl next → motive next → motive m)
    (m : Machine) : motive m := by
  induction endsAll settings m with
  | intro m _ ih =>
    cases step : m.step settings with
    | inl next => exact stepped m next step (ih next step)
    | inr evaluated => exact ended m evaluated step

theorem run_preserves (settings : Settings) (inv : Machine → Prop) (post : Evaluated → Prop)
    (kept : ∀ m next, inv m → m.step settings = .inl next → inv next)
    (ended : ∀ m evaluated, inv m → m.step settings = .inr evaluated → post evaluated)
    (m : Machine) (holds : inv m) : post (m.run settings) := by
  induction m using run_induction settings with
  | ended m evaluated step =>
    rw [run_of_end step]
    exact ended m evaluated holds step
  | stepped m next step ih =>
    rw [run_of_step step]
    exact ih (kept m next holds step)

theorem step_eq_inr {settings : Settings} {m : Machine} {evaluated : Evaluated}
    (ended : m.step settings = .inr evaluated) :
    m = resuming evaluated m.remaining [] := by
  rcases m with ⟨control, scope, state, remaining, frames⟩
  cases control with
  | eval expr => simp [step] at ended
  | give outcome =>
    cases frames with
    | nil =>
      simp only [step, Sum.inr.injEq] at ended
      subst ended
      rfl
    | cons frame frames => cases outcome <;> simp [step] at ended

theorem run_giving_error (settings : Settings) (error : EvalError) (frames : List Frame) :
    ∀ scope state remaining,
      ((giving (.error error) scope state remaining frames).run settings).outcome =
        .error error := by
  induction frames with
  | nil =>
    intro scope state remaining
    have ended : (giving (.error error) scope state remaining []).step settings =
        .inr ⟨.error error, scope, state⟩ := rfl
    rw [run_of_end ended]
  | cons frame frames ih =>
    intro scope state remaining
    rw [run_error]
    cases frame <;> exact ih _ _ _

/-! ## What a step does to the statistics -/

def openCalls : List Frame → Nat
  | [] => 0
  | .body .. :: frames => openCalls frames + 1
  | _ :: frames => openCalls frames

/-- What a step from a machine with this state, so many calls left and so many calls open does to
them. -/
inductive Effect (settings : Settings) (state : EvalState) (remaining calls : Nat)
    (next : Machine) : Prop
  | quiet (nextId : Nat) (fresh : state.nextId ≤ nextId)
      (stateEq : next.state = { state with nextId := nextId })
      (remainingEq : next.remaining = remaining) (callsEq : openCalls next.frames = calls)
  | enter (span : Option Span) (name : String) (args : Nat)
      (stateEq : next.state = state.enter settings span name args)
      (remainingEq : remaining = next.remaining + 1)
      (callsEq : openCalls next.frames = calls + 1)
  | leave (span : Option Span) (name : String) (error : Option String)
      (stateEq : next.state = state.leave settings span name error)
      (remainingEq : next.remaining = remaining + 1)
      (callsEq : calls = openCalls next.frames + 1)

section Effects
variable (settings : Settings) (scope : Scope) (state : EvalState) (remaining : Nat)

theorem Effect.none {settings : Settings} {state : EvalState} {remaining calls : Nat}
    {next : Machine} (stateEq : next.state = state) (remainingEq : next.remaining = remaining)
    (callsEq : openCalls next.frames = calls) : Effect settings state remaining calls next :=
  .quiet state.nextId (Nat.le_refl _) stateEq remainingEq callsEq

theorem invoke_effect (closure : Closure) (args : List Value) (span : Option Span)
    (frames : List Frame) :
    Effect settings state remaining (openCalls frames)
      (invoke settings closure args span scope state remaining frames) := by
  unfold invoke
  split
  · exact .none rfl rfl rfl
  · split
    · exact .none rfl rfl rfl
    · exact .enter span closure.name args.length rfl rfl rfl

theorem arguments_effect (span : Option Span) (expr : Expr) (target : Value) (done : List Value)
    (rest : List Expr) (frames : List Frame) :
    Effect settings state remaining (openCalls frames)
      (arguments settings span expr target done rest scope state remaining frames) := by
  unfold arguments
  split
  · exact .none rfl rfl rfl
  · split
    · exact invoke_effect settings scope state remaining _ _ span frames
    · exact .none rfl rfl rfl

theorem unfoldExpr_effect (expr : Expr) (frames : List Frame) :
    Effect settings state remaining (openCalls frames)
      (unfoldExpr expr scope state remaining frames) := by
  cases expr with
  | function span params body =>
    exact .quiet (state.nextId + 1) (Nat.le_succ _) rfl rfl rfl
  | _ => exact .none rfl rfl rfl

theorem accept_effect (value : Value) (frame : Frame) (frames : List Frame) :
    Effect settings state remaining (openCalls (frame :: frames))
      (accept settings value scope state remaining frame frames) := by
  cases frame with
  | define name isFunction => exact .none rfl rfl rfl
  | right span symbol operand => exact .none rfl rfl rfl
  | operate span symbol left => exact .none rfl rfl rfl
  | branch consequent =>
    simp only [accept]
    split <;> exact .none rfl rfl rfl
  | callee span expr args =>
    simp only [accept]
    split
    · exact .none rfl rfl rfl
    · exact arguments_effect settings scope state remaining span expr value [] args frames
  | argument span expr target done rest =>
    exact arguments_effect settings scope state remaining span expr target (value :: done) rest
      frames
  | body span closure args rest caller =>
    cases rest with
    | nil => exact .leave span closure.name none rfl rfl rfl
    | cons expr rest => exact .none rfl rfl rfl

theorem reject_effect (error : EvalError) (frame : Frame) (frames : List Frame) :
    Effect settings state remaining (openCalls (frame :: frames))
      (reject settings error scope state remaining frame frames) := by
  cases frame with
  | body span closure args rest caller =>
    exact .leave span closure.name (some error.message) rfl rfl rfl
  | _ => exact .none rfl rfl rfl

end Effects

theorem step_effect {settings : Settings} {m next : Machine}
    (stepped : m.step settings = .inl next) :
    Effect settings m.state m.remaining (openCalls m.frames) next := by
  rcases m with ⟨control, scope, state, remaining, frames⟩
  cases control with
  | eval expr =>
    cases Sum.inl.inj stepped
    exact unfoldExpr_effect settings scope state remaining expr frames
  | give outcome =>
    cases frames with
    | nil => simp [step] at stepped
    | cons frame frames =>
      cases outcome with
      | ok value =>
        cases Sum.inl.inj stepped
        exact accept_effect settings scope state remaining value frame frames
      | error error =>
        cases Sum.inl.inj stepped
        exact reject_effect settings scope state remaining error frame frames

/-! ## Calls are closed as they were opened -/

/-- Of the calls open, all but `base` are open in the frames. -/
def Balanced (base : Nat) (m : Machine) : Prop :=
  m.state.tracker.depth = base + openCalls m.frames

theorem balanced_step {settings : Settings} {base : Nat} {m next : Machine}
    (balanced : Balanced base m) (stepped : m.step settings = .inl next) : Balanced base next := by
  unfold Balanced at balanced ⊢
  cases step_effect stepped with
  | quiet nextId fresh stateEq remainingEq callsEq =>
    rw [stateEq, callsEq]
    exact balanced
  | enter span name args stateEq remainingEq callsEq =>
    rw [stateEq, callsEq, EvalState.enter_tracker]
    simp only [Tracker.enter]
    omega
  | leave span name error stateEq remainingEq callsEq =>
    rw [stateEq, EvalState.leave_tracker]
    simp only [Tracker.leave]
    omega

theorem run_depth {settings : Settings} {base : Nat} {m : Machine} (balanced : Balanced base m) :
    (m.run settings).state.tracker.depth = base := by
  refine run_preserves settings (Balanced base) (fun ended => ended.state.tracker.depth = base)
    (fun m next holds stepped => balanced_step holds stepped) ?_ m balanced
  intro m evaluated holds ended
  rw [step_eq_inr ended] at holds
  exact holds

theorem maxSeen_le_step {settings : Settings} {m next : Machine}
    (stepped : m.step settings = .inl next) :
    m.state.tracker.maxSeen ≤ next.state.tracker.maxSeen := by
  cases step_effect stepped with
  | quiet nextId fresh stateEq remainingEq callsEq =>
    have same : next.state.tracker = m.state.tracker := by rw [stateEq]
    exact Nat.le_of_eq (congrArg Tracker.maxSeen same.symm)
  | enter span name args stateEq remainingEq callsEq =>
    rw [stateEq, EvalState.enter_tracker]
    exact Nat.le_max_left _ _
  | leave span name error stateEq remainingEq callsEq =>
    rw [stateEq, EvalState.leave_tracker]
    exact Nat.le_refl _

theorem maxSeen_le_run (settings : Settings) (m : Machine) :
    m.state.tracker.maxSeen ≤ (m.run settings).state.tracker.maxSeen := by
  refine run_preserves settings
    (fun later => m.state.tracker.maxSeen ≤ later.state.tracker.maxSeen)
    (fun ended => m.state.tracker.maxSeen ≤ ended.state.tracker.maxSeen) ?_ ?_ m (Nat.le_refl _)
  · intro later next holds stepped
    exact Nat.le_trans holds (maxSeen_le_step stepped)
  · intro later evaluated holds ended
    rw [step_eq_inr ended] at holds
    exact holds

end Machine

theorem Expr.evaluate_depth (settings : Settings) (expr : Expr) (scope : Scope)
    (state : EvalState) :
    (expr.evaluate settings scope state).state.tracker.depth = state.tracker.depth :=
  Machine.run_depth (m := Machine.evaluating expr scope state (state.remaining settings) [])
    (Nat.add_zero _).symm

theorem Expr.maxSeen_le_evaluate (settings : Settings) (expr : Expr) (scope : Scope)
    (state : EvalState) :
    state.tracker.maxSeen ≤ (expr.evaluate settings scope state).state.tracker.maxSeen :=
  Machine.maxSeen_le_run settings
    (Machine.evaluating expr scope state (state.remaining settings) [])

/-! ## Statements -/

section Statements
variable {settings : Settings} {index : Nat} {statement : Expr} {scope after : Scope}
  {state later : EvalState}

theorem executeFrom_error {error : EvalError} (rest : List Expr)
    (failed : statement.evaluate settings scope (state.openStatement settings index statement) =
      ⟨.error error, after, later⟩) :
    executeFrom settings index (statement :: rest) scope state =
      ⟨[], some error, after, later⟩ := by
  rw [executeFrom, failed]

theorem executeFrom_ok {value : Value} (rest : List Expr)
    (completed : statement.evaluate settings scope (state.openStatement settings index statement) =
      ⟨.ok value, after, later⟩) :
    executeFrom settings index (statement :: rest) scope state =
      let others :=
        executeFrom settings (index + 1) rest after (later.closeStatement settings index statement)
      { others with values := value :: others.values } := by
  rw [executeFrom, completed]

end Statements

/-- Induction along an execution: there are no statements left, or the first one fails, or it
completes and the others are executed after it. -/
theorem executeFrom_induction (settings : Settings)
    {motive : List Expr → Nat → Scope → EvalState → Execution → Prop}
    (nil : ∀ index scope state, motive [] index scope state ⟨[], none, scope, state⟩)
    (fails : ∀ index statement rest scope state error after later,
      statement.evaluate settings scope (state.openStatement settings index statement) =
        ⟨.error error, after, later⟩ →
      motive (statement :: rest) index scope state ⟨[], some error, after, later⟩)
    (completes : ∀ index statement rest scope state value after later others,
      statement.evaluate settings scope (state.openStatement settings index statement) =
        ⟨.ok value, after, later⟩ →
      motive rest (index + 1) after (later.closeStatement settings index statement) others →
      motive (statement :: rest) index scope state
        { others with values := value :: others.values })
    (statements : List Expr) (index : Nat) (scope : Scope) (state : EvalState) :
    motive statements index scope state
      (executeFrom settings index statements scope state) := by
  induction statements generalizing index scope state with
  | nil => exact nil index scope state
  | cons statement rest ih =>
    cases evaluated : statement.evaluate settings scope
        (state.openStatement settings index statement) with
    | mk outcome after later =>
      cases outcome with
      | error error =>
        rw [executeFrom_error rest evaluated]
        exact fails index statement rest scope state error after later evaluated
      | ok value =>
        rw [executeFrom_ok rest evaluated]
        exact completes index statement rest scope state value after later _ evaluated (ih _ _ _)

theorem maxSeen_le_executeFrom (settings : Settings) (statements : List Expr) :
    ∀ index scope state, state.tracker.maxSeen ≤
      (executeFrom settings index statements scope state).state.tracker.maxSeen := by
  induction statements with
  | nil =>
    intro index scope state
    exact Nat.le_refl _
  | cons statement rest ih =>
    intro index scope state
    have first := statement.maxSeen_le_evaluate settings scope
      (state.openStatement settings index statement)
    rw [EvalState.openStatement_tracker] at first
    cases evaluated : statement.evaluate settings scope
        (state.openStatement settings index statement) with
    | mk outcome after later =>
      rw [evaluated] at first
      cases outcome with
      | error error =>
        rw [executeFrom_error rest evaluated]
        exact first
      | ok value =>
        have second := ih (index + 1) after (later.closeStatement settings index statement)
        rw [EvalState.closeStatement_tracker] at second
        rw [executeFrom_ok rest evaluated]
        exact Nat.le_trans first second

end Sapling
