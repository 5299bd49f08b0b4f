import Sapling.Proofs.Coverage

/-!
# The calls of a run

Which functions a run calls can be seen from the machine alone, without its events
(`Machine.called`).  The starts of calls among the events name these functions, in the same order
(`Program.execute_names`).

The counts in the events are small if the lists of the program are: the indices of statements, and
the numbers of arguments (`Program.execute_within`).
-/

set_option autoImplicit false

namespace Sapling

/-! ## The functions called -/

namespace Machine

/-- The function that a step calls, if it calls one: fewer calls may be nested than before, and the
body of the function is on top of the frames. -/
def entered? (m next : Machine) : Option Closure :=
  if next.remaining < m.remaining then
    match next.frames with
    | .body _ closure _ _ _ :: _ => some closure
    | _ => none
  else none

def called (settings : Settings) (m : Machine) : List Closure :=
  match _stepped : m.step settings with
  | .inr _ => []
  | .inl next => (m.entered? next).toList ++ called settings next
termination_by (⟨Follows settings, ⟨endsAll settings⟩⟩ : WellFoundedRelation Machine).wf.wrap m
decreasing_by exact _stepped

theorem called_of_step {settings : Settings} {m next : Machine}
    (stepped : m.step settings = .inl next) :
    m.called settings = (m.entered? next).toList ++ next.called settings := by
  rw [called]
  split
  · rename_i done
    rw [stepped] at done
    cases done
  · rename_i other follows
    rw [stepped] at follows
    injection follows with same
    rw [same]

theorem called_of_end {settings : Settings} {m : Machine} {evaluated : Evaluated}
    (stepped : m.step settings = .inr evaluated) : m.called settings = [] := by
  rw [called]
  split
  · rfl
  · rename_i follows
    rw [stepped] at follows
    cases follows

end Machine

def Expr.called (settings : Settings) (expr : Expr) (scope : Scope) (state : EvalState) :
    List Closure :=
  (Machine.evaluating expr scope state (state.remaining settings) []).called settings

/-- The functions called by statements, the first of which has the given index, up to the first
that fails. -/
def calledFrom (settings : Settings) : Nat → List Expr → Scope → EvalState → List Closure
  | _, [], _, _ => []
  | index, statement :: rest, scope, state =>
    let opened := state.openStatement settings index statement
    statement.called settings scope opened ++
      match statement.evaluate settings scope opened with
      | ⟨.error _, _, _⟩ => []
      | ⟨.ok _, scope, state⟩ =>
        calledFrom settings (index + 1) rest scope (state.closeStatement settings index statement)

def Program.called (settings : Settings) (program : Program) (scope : Scope) (nextId : Nat) :
    List Closure :=
  calledFrom settings 0 program.statements scope
    ((EvalState.start nextId).emit settings program.span.known? .runStart)

/-! ## Their names -/

def TraceEvent.called? (event : TraceEvent) : Option String :=
  match event.step with
  | .callStart name _ _ => some name
  | _ => none

def EvalState.names (state : EvalState) : List String :=
  state.events.reverse.filterMap TraceEvent.called?

namespace EvalState
variable {settings : Settings} (traced : settings.tracing = true) (state : EvalState)
include traced

theorem emit_names (span : Option Span) (step : TraceStep) :
    (state.emit settings span step).names =
      state.names ++ (TraceEvent.called? ⟨settings.runId, span, step⟩).toList := by
  simp only [emit, traced, if_true, names, List.reverse_cons, List.filterMap_append,
    List.filterMap_cons, List.filterMap_nil]
  cases TraceEvent.called? ⟨settings.runId, span, step⟩ <;> rfl

theorem enter_names (span : Option Span) (name : String) (args : Nat) :
    (state.enter settings span name args).names = state.names ++ [name] :=
  emit_names traced _ span _

theorem leave_names (span : Option Span) (name : String) (error : Option String) :
    (state.leave settings span name error).names = state.names :=
  (emit_names traced state span _).trans (List.append_nil _)

theorem openStatement_names (index : Nat) (statement : Expr) :
    (state.openStatement settings index statement).names = state.names :=
  (emit_names traced state _ _).trans (List.append_nil _)

theorem closeStatement_names (index : Nat) (statement : Expr) :
    (state.closeStatement settings index statement).names = state.names :=
  (emit_names traced state _ _).trans (List.append_nil _)

end EvalState

namespace Machine
variable {settings : Settings}

/-- A call was opened: the body of the function is on top, and the call was reported with its name
and the number of its arguments. -/
def Entered (settings : Settings) (state : EvalState) (next : Machine) : Prop :=
  ∃ span closure args rest caller frames,
    next.frames = .body span closure args rest caller :: frames ∧
      next.state = state.enter settings span closure.name args.length

section Enter
variable {scope : Scope} {state : EvalState} {remaining : Nat} {frames : List Frame}

theorem invoke_enter {closure : Closure} {args : List Value} {span : Option Span}
    (fewer :
      (invoke settings closure args span scope state remaining frames).remaining < remaining) :
    Entered settings state (invoke settings closure args span scope state remaining frames) := by
  unfold invoke at fewer ⊢
  split at fewer
  · exact absurd fewer (Nat.lt_irrefl _)
  · split at fewer
    · exact absurd fewer (Nat.lt_irrefl _)
    · exact ⟨span, closure, args, _, scope, frames, rfl, rfl⟩

theorem arguments_enter {span : Option Span} {expr : Expr} {target : Value} {done : List Value}
    {rest : List Expr}
    (fewer : (arguments settings span expr target done rest scope state remaining frames).remaining
      < remaining) :
    Entered settings state
      (arguments settings span expr target done rest scope state remaining frames) := by
  unfold arguments at fewer ⊢
  split at fewer
  · exact absurd fewer (Nat.lt_irrefl _)
  · split at fewer
    · exact invoke_enter fewer
    · exact absurd fewer (Nat.lt_irrefl _)

end Enter

theorem step_enter {m next : Machine} (stepped : m.step settings = .inl next)
    (fewer : next.remaining < m.remaining) : Entered settings m.state next := by
  -- only the value of a callee or of an argument can open a call; every other step keeps the number
  -- of calls that may be nested, or gives one back
  rcases m with ⟨control, scope, state, remaining, frames⟩
  cases control with
  | eval expr =>
    cases Sum.inl.inj stepped
    cases expr <;> exact absurd fewer (Nat.lt_irrefl _)
  | give outcome =>
    cases frames with
    | nil => simp [step] at stepped
    | cons frame frames =>
      cases outcome with
      | ok value =>
        cases Sum.inl.inj stepped
        cases frame with
        | callee span expr args =>
          simp only [accept] at fewer ⊢
          split at fewer
          · exact absurd fewer (Nat.lt_irrefl _)
          · exact arguments_enter fewer
        | argument span expr target done rest => exact arguments_enter fewer
        | branch consequent =>
          simp only [accept] at fewer
          split at fewer <;> exact absurd fewer (Nat.lt_irrefl _)
        | body span closure args rest caller =>
          cases rest with
          | nil => exact absurd fewer (Nat.not_lt_of_lt (Nat.lt_succ_self remaining))
          | cons expr rest => exact absurd fewer (Nat.lt_irrefl _)
        | _ => exact absurd fewer (Nat.lt_irrefl _)
      | error error =>
        cases Sum.inl.inj stepped
        cases frame with
        | body span closure args rest caller =>
          exact absurd fewer (Nat.not_lt_of_lt (Nat.lt_succ_self remaining))
        | _ => exact absurd fewer (Nat.lt_irrefl _)

theorem entered?_of_le {m next : Machine} (room : m.remaining ≤ next.remaining) :
    m.entered? next = none := if_neg (Nat.not_lt.mpr room)

theorem step_names (traced : settings.tracing = true) {m next : Machine}
    (stepped : m.step settings = .inl next) :
    next.state.names = m.state.names ++ (m.entered? next).toList.map Closure.name := by
  cases step_effect stepped with
  | quiet nextId fresh stateEq remainingEq callsEq =>
    rw [stateEq, entered?_of_le (Nat.le_of_eq remainingEq.symm)]
    exact (List.append_nil _).symm
  | enter span name args stateEq remainingEq callsEq =>
    have fewer : next.remaining < m.remaining := by omega
    obtain ⟨span, closure, args, rest, caller, frames, top, stateEq⟩ := step_enter stepped fewer
    have entered : m.entered? next = some closure := by
      rw [entered?, if_pos fewer, top]
    rw [stateEq, entered, EvalState.enter_names traced]
    rfl
  | leave span name error stateEq remainingEq callsEq =>
    rw [stateEq, entered?_of_le (by omega), EvalState.leave_names traced]
    exact (List.append_nil _).symm

theorem run_names (traced : settings.tracing = true) (m : Machine) :
    (m.run settings).state.names = m.state.names ++ (m.called settings).map Closure.name := by
  induction m using run_induction settings with
  | ended m evaluated ended =>
    rw [run_of_end ended, called_of_end ended, step_eq_inr ended]
    exact (List.append_nil _).symm
  | stepped m next stepped ih =>
    rw [run_of_step stepped, called_of_step stepped, ih, step_names traced stepped]
    simp

end Machine

theorem executeFrom_names {settings : Settings} (traced : settings.tracing = true)
    (statements : List Expr) : ∀ index scope state,
      (executeFrom settings index statements scope state).state.names =
        state.names ++ (calledFrom settings index statements scope state).map Closure.name := by
  induction statements with
  | nil => exact fun index scope state => (List.append_nil _).symm
  | cons statement rest ih =>
    intro index scope state
    have first := Machine.run_names traced (Machine.evaluating statement scope
      (state.openStatement settings index statement)
      ((state.openStatement settings index statement).remaining settings) [])
    rw [calledFrom]
    cases evaluated : statement.evaluate settings scope
        (state.openStatement settings index statement) with
    | mk outcome after later =>
      have names : later.names = state.names ++ (statement.called settings scope
          (state.openStatement settings index statement)).map Closure.name := by
        rw [← EvalState.openStatement_names traced state index statement]
        rw [Expr.evaluate] at evaluated
        rw [evaluated] at first
        exact first
      cases outcome with
      | error error =>
        rw [executeFrom_error rest evaluated]
        simpa using names
      | ok value =>
        rw [executeFrom_ok rest evaluated]
        simp [ih, EvalState.closeStatement_names traced, names]

theorem Program.execute_names {settings : Settings} (traced : settings.tracing = true)
    (program : Program) (scope : Scope) (nextId : Nat) :
    (program.execute settings scope nextId).events.filterMap TraceEvent.called? =
      (program.called settings scope nextId).map Closure.name := by
  show EvalState.names (EvalState.emit _ settings _ _) = _
  rw [EvalState.emit_names traced, executeFrom_names traced, EvalState.emit_names traced]
  exact List.append_nil _

/-! ## Counts -/

/-- A step within a run, of which the counts that come from lists are at most so large. -/
def TraceStep.Within (width : Nat) : TraceStep → Prop
  | .runStart | .callEnd .. => True
  | .runEnd _ => False
  | .statementStart index _ | .statementEnd index => index ≤ width
  | .callStart _ args _ => args ≤ width

def EvalState.Within (runId : String) (width : Nat) (state : EvalState) : Prop :=
  ∀ event ∈ state.events, event.runId = runId ∧ event.step.Within width

theorem EvalState.Within.emit {settings : Settings} {width : Nat} {state : EvalState}
    (within : state.Within settings.runId width) (span : Option Span) (step : TraceStep)
    (small : step.Within width) : (state.emit settings span step).Within settings.runId width := by
  unfold EvalState.emit
  split
  · exact List.forall_mem_cons.mpr ⟨⟨rfl, small⟩, within⟩
  · exact within

/-- The arguments of the call, those evaluated and those not yet, are at most so many. -/
def Frame.Narrow (width : Nat) : Frame → Prop
  | .callee _ _ args => args.length ≤ width
  | .argument _ _ _ done rest => done.length + rest.length < width
  | .body _ _ args _ _ => args.length ≤ width
  | .define .. | .right .. | .operate .. | .branch .. => True

def NarrowCalls (p : Expr → Prop) (width : Nat) : Prop :=
  ∀ place callee args, p (.call place callee args) → args.length ≤ width

namespace Machine

/-- The machine holds only expressions with the property, and its calls are narrow. -/
structure Narrow (p : Expr → Prop) (width : Nat) (m : Machine) : Prop where
  origin : m.From p
  calls : ∀ frame ∈ m.frames, frame.Narrow width

section Narrow
variable {p : Expr → Prop} {width : Nat} {settings : Settings} {scope : Scope} {state : EvalState}
  {remaining : Nat} {frames : List Frame} (below : ∀ frame ∈ frames, frame.Narrow width)
include below

theorem invoke_narrow {closure : Closure} {args : List Value} {span : Option Span}
    (few : args.length ≤ width) :
    ∀ frame ∈ (invoke settings closure args span scope state remaining frames).frames,
      frame.Narrow width := by
  unfold invoke
  split
  · exact below
  · split
    · exact below
    · exact List.forall_mem_cons.mpr ⟨few, below⟩

theorem arguments_narrow {span : Option Span} {expr : Expr} {target : Value} {done : List Value}
    {rest : List Expr} (few : done.length + rest.length ≤ width) :
    ∀ frame ∈ (arguments settings span expr target done rest scope state remaining frames).frames,
      frame.Narrow width := by
  unfold arguments
  split
  · exact List.forall_mem_cons.mpr ⟨few, below⟩
  · split
    · exact invoke_narrow below (by simpa using few)
    · exact below

theorem unfoldExpr_narrow (calls : NarrowCalls p width) {expr : Expr} (holds : p expr) :
    ∀ frame ∈ (unfoldExpr expr scope state remaining frames).frames, frame.Narrow width := by
  cases expr with
  | define span name value => exact List.forall_mem_cons.mpr ⟨trivial, below⟩
  | binary span symbol left right => exact List.forall_mem_cons.mpr ⟨trivial, below⟩
  | guarded span condition consequent => exact List.forall_mem_cons.mpr ⟨trivial, below⟩
  | call span callee args =>
    exact List.forall_mem_cons.mpr ⟨calls span callee args holds, below⟩
  | _ => exact below

theorem accept_narrow {value : Value} {top : Frame} (narrow : top.Narrow width) :
    ∀ frame ∈ (accept settings value scope state remaining top frames).frames,
      frame.Narrow width := by
  cases top with
  | right span symbol operand => exact List.forall_mem_cons.mpr ⟨trivial, below⟩
  | branch consequent =>
    simp only [accept]
    split <;> exact below
  | callee span expr args =>
    simp only [accept]
    split
    · exact below
    · refine arguments_narrow below ?_
      rw [List.length_nil, Nat.zero_add]
      exact narrow
  | argument span expr target done rest =>
    refine arguments_narrow below ?_
    rw [List.length_cons, Nat.add_right_comm]
    exact narrow
  | body span closure args rest caller =>
    cases rest with
    | nil => exact below
    | cons expr rest => exact List.forall_mem_cons.mpr ⟨narrow, below⟩
  | _ => exact below

end Narrow

section Step
variable {p : Expr → Prop} {width : Nat} {settings : Settings} {m next : Machine}

theorem narrow_step (hereditary : Hereditary p) (calls : NarrowCalls p width)
    (narrow : m.Narrow p width) (stepped : m.step settings = .inl next) : next.Narrow p width := by
  refine ⟨from_step hereditary narrow.origin stepped, ?_⟩
  rcases m with ⟨control, scope, state, remaining, frames⟩
  obtain ⟨origin, narrow⟩ := narrow
  cases control with
  | eval expr =>
    cases Sum.inl.inj stepped
    exact unfoldExpr_narrow narrow calls origin.control
  | give outcome =>
    cases frames with
    | nil => simp [step] at stepped
    | cons frame frames =>
      obtain ⟨top, below⟩ := List.forall_mem_cons.mp narrow
      cases outcome with
      | ok value =>
        cases Sum.inl.inj stepped
        exact accept_narrow below top
      | error error =>
        cases Sum.inl.inj stepped
        cases frame <;> exact below

theorem within_step (narrow : next.Narrow p width) (within : m.state.Within settings.runId width)
    (stepped : m.step settings = .inl next) : next.state.Within settings.runId width := by
  cases step_effect stepped with
  | quiet nextId fresh stateEq remainingEq callsEq =>
    rw [stateEq]
    exact within
  | enter span name args stateEq remainingEq callsEq =>
    obtain ⟨span, closure, args, rest, caller, frames, top, stateEq⟩ :=
      step_enter stepped (by omega)
    -- the number that is reported is that of the arguments in the frame on top
    have few : (Frame.body span closure args rest caller).Narrow width :=
      narrow.calls _ (top ▸ List.mem_cons_self)
    have counted : EvalState.Within settings.runId width
        { m.state with tracker := m.state.tracker.enter } := within
    rw [stateEq]
    exact counted.emit span _ few
  | leave span name error stateEq remainingEq callsEq =>
    rw [stateEq]
    exact within.emit span (.callEnd name error) trivial

end Step
end Machine

section Executions
variable {p : Expr → Prop} {width : Nat} {settings : Settings} (hereditary : Hereditary p)
  (calls : NarrowCalls p width)
include hereditary calls

theorem Expr.evaluate_within {expr : Expr} (holds : p expr) {scope : Scope}
    (scopeHolds : scope.From p) {state : EvalState} (within : state.Within settings.runId width) :
    (expr.evaluate settings scope state).state.Within settings.runId width := by
  refine Machine.run_preserves settings
    (fun m => m.Narrow p width ∧ m.state.Within settings.runId width)
    (fun ended => ended.state.Within settings.runId width) ?_ ?_ _
    ⟨⟨Machine.from_evaluating holds scopeHolds nofun, nofun⟩, within⟩
  · intro m next holds stepped
    have narrow := Machine.narrow_step hereditary calls holds.1 stepped
    exact ⟨narrow, Machine.within_step narrow holds.2 stepped⟩
  · intro m evaluated holds ended
    rw [Machine.step_eq_inr ended] at holds
    exact holds.2

theorem executeFrom_within (statements : List Expr) (index : Nat) (scope : Scope)
    (state : EvalState) (holds : ∀ statement ∈ statements, p statement)
    (scopeHolds : scope.From p) (few : index + statements.length ≤ width)
    (within : state.Within settings.runId width) :
    (executeFrom settings index statements scope state).state.Within settings.runId width := by
  have first (index : Nat) (statement : Expr) (rest : List Expr) {state : EvalState}
      (few : index + (statement :: rest).length ≤ width)
      (within : state.Within settings.runId width) :
      (state.openStatement settings index statement).Within settings.runId width :=
    within.emit statement.span.known? (.statementStart index statement.kind)
      (Nat.le_trans (Nat.le_add_right _ _) few)
  induction statements, index, scope, state using executeFrom_induction settings with
  | nil index scope state => exact within
  | fails index statement rest scope state error after later evaluated =>
    have inside := statement.evaluate_within hereditary calls (holds statement List.mem_cons_self)
      scopeHolds (first index statement rest few within)
    rw [evaluated] at inside
    exact inside
  | completes index statement rest scope state value after later others evaluated ih =>
    obtain ⟨here, restHolds⟩ := List.forall_mem_cons.mp holds
    have inside := statement.evaluate_within hereditary calls here scopeHolds
      (first index statement rest few within)
    have kept := (statement.evaluate_from hereditary settings here scopeHolds
      (state.openStatement settings index statement)).2
    rw [evaluated] at inside kept
    rw [List.length_cons] at few
    refine ih restHolds kept (by omega) ?_
    exact inside.emit statement.span.known? (.statementEnd index) (show index ≤ width by omega)

end Executions

structure Program.Narrow (width : Nat) (program : Program) : Prop where
  statements : program.statements.length ≤ width
  calls : NarrowCalls program.Contains width

/-- The events of a run with the end of the run split off: before it, all are events within the run,
and no count in them is larger than the program is wide. -/
theorem Program.execute_within {program : Program} {width : Nat} (narrow : program.Narrow width)
    (limit : Nat) (runId : String) (nextId : Nat) :
    let execution := program.execute ⟨limit, true, runId⟩ Scope.empty nextId
    ∃ inner, execution.events = inner ++ [⟨runId, program.span.known?,
        .runEnd (execution.error.map EvalError.message)⟩] ∧
      ∀ event ∈ inner, event.runId = runId ∧ event.step.Within width := by
  intro execution
  let settings : Settings := ⟨limit, true, runId⟩
  have nothing : (EvalState.start nextId).Within settings.runId width := nofun
  have inside := executeFrom_within program.contains_hereditary narrow.calls program.statements 0
    Scope.empty _ (fun statement member => Program.contains_statement member) Scope.empty_each
    (by simpa using narrow.statements)
    (nothing.emit program.span.known? .runStart trivial)
  refine ⟨_, List.reverse_cons, fun event isIn => inside event (List.mem_reverse.mp isIn)⟩

end Sapling
