import Sapling.Proofs.Runs

/-!
# What the depth limit decides

A program is run twice, once under a limit and once under a higher one.  The two runs go the same
way step by step until the lower limit refuses a call (`Machine.step_raise`).  From there on the
first run only hands its error down, while the second has by then had more calls open than the
lower limit allows.  So the higher run tells whether the lower limit was enough
(`Program.execute_raise`).
-/

set_option autoImplicit false

namespace Sapling

def Settings.raise (settings : Settings) (gap : Nat) : Settings :=
  { settings with limit := settings.limit + gap }

def Evaluated.Overflows (evaluated : Evaluated) : Prop :=
  ∃ error, evaluated.outcome = .error error ∧ error.failure.code = .stackOverflow

def Execution.Overflows (execution : Execution) : Prop :=
  ∃ error, execution.error = some error ∧ error.failure.code = .stackOverflow

/-! ## Failures that do not come from the limit -/

theorem operate_error_code {symbol : String} {span : Option Span} {left right : Value}
    {error : EvalError} (failed : operate symbol span left right = .error error) :
    error.failure.code ≠ .stackOverflow := by
  have given := operate_operated symbol span left right
  rw [failed] at given
  cases given <;> exact nofun

theorem calleeError?_code {value : Value} {failure : Failure}
    (failed : calleeError? value = some failure) : failure.code ≠ .stackOverflow := by
  cases value <;> simp only [calleeError?, reduceCtorEq, Option.some.injEq] at failed <;>
    (subst failed; simp [Failure.code])

theorem noCallee_code (expr : Expr) : (noCallee expr).code ≠ .stackOverflow := by
  cases expr <;> simp [noCallee, Failure.code]

namespace Machine

def lift (m : Machine) (gap : Nat) : Machine := { m with remaining := m.remaining + gap }

/-- No call has been refused for its depth. -/
def Calm (m : Machine) : Prop :=
  ∀ error, m.control = .give (.error error) → error.failure.code ≠ .stackOverflow

section Calm
variable {scope : Scope} {state : EvalState} {remaining : Nat} {frames : List Frame}

theorem calm_evaluating {expr : Expr} : Calm (evaluating expr scope state remaining frames) := by
  intro error same
  cases same

theorem calm_giving_ok {value : Value} :
    Calm (giving (.ok value) scope state remaining frames) := by
  intro error same
  cases same

theorem calm_giving_error {failure : Failure} {span : Option Span}
    (calm : failure.code ≠ .stackOverflow) :
    Calm (giving (.error ⟨failure, span⟩) scope state remaining frames) := by
  intro error same
  cases same
  exact calm

end Calm

/-! ## One step under two limits -/

/-- Where a step from this state leads under the lower limit and under the higher one. -/
inductive Parallel (settings : Settings) (gap : Nat) (state : EvalState) (remaining : Nat)
    (low high : Machine) : Prop
  | together (calm : Calm low) (same : high = low.lift gap)
  | refused (span : Option Span) (scope : Scope) (frames : List Frame) (noneLeft : remaining = 0)
      (refusal : low = giving (.error ⟨.tooDeep settings.limit, span⟩) scope state 0 frames)
      (entered : high.state.tracker = state.tracker.enter)

section Step
variable {settings : Settings} {gap : Nat} (scope : Scope) (state : EvalState) (remaining : Nat)

theorem invoke_raise (more : 0 < gap) (closure : Closure) (args : List Value)
    (span : Option Span) (frames : List Frame) :
    Parallel settings gap state remaining
      (invoke settings closure args span scope state remaining frames)
      (invoke (settings.raise gap) closure args span scope state (remaining + gap) frames) := by
  unfold invoke
  split
  · exact .together (calm_giving_error (by simp [Failure.code])) rfl
  · cases remaining with
    | zero =>
      obtain ⟨less, rfl⟩ := Nat.exists_eq_add_of_lt more
      refine .refused span scope frames rfl rfl ?_
      rw [show 0 + (0 + less + 1) = less + 1 by omega]
      exact EvalState.enter_tracker ..
    | succ remaining =>
      rw [Nat.add_right_comm remaining 1 gap]
      exact .together calm_evaluating rfl

theorem arguments_raise (more : 0 < gap) (span : Option Span) (expr : Expr) (target : Value)
    (done : List Value) (rest : List Expr) (frames : List Frame) :
    Parallel settings gap state remaining
      (arguments settings span expr target done rest scope state remaining frames)
      (arguments (settings.raise gap) span expr target done rest scope state (remaining + gap)
        frames) := by
  unfold arguments
  split
  · exact .together calm_evaluating rfl
  · split
    · exact invoke_raise scope state remaining more _ _ span frames
    · exact .together (calm_giving_error (noCallee_code expr)) rfl

theorem unfoldExpr_raise (expr : Expr) (frames : List Frame) :
    Parallel settings gap state remaining (unfoldExpr expr scope state remaining frames)
      (unfoldExpr expr scope state (remaining + gap) frames) := by
  cases expr with
  | hole => exact .together (calm_giving_error (by simp [Failure.code])) rfl
  | literal span value => exact .together calm_giving_ok rfl
  | read span name => exact .together calm_giving_ok rfl
  | function span params body => exact .together calm_giving_ok rfl
  | define span name value => exact .together calm_evaluating rfl
  | binary span symbol left right => exact .together calm_evaluating rfl
  | guarded span condition consequent => exact .together calm_evaluating rfl
  | call span callee args => exact .together calm_evaluating rfl

theorem accept_raise (more : 0 < gap) (value : Value) (frame : Frame) (frames : List Frame) :
    Parallel settings gap state remaining
      (accept settings value scope state remaining frame frames)
      (accept (settings.raise gap) value scope state (remaining + gap) frame frames) := by
  cases frame with
  | define name isFunction => exact .together calm_giving_ok rfl
  | right span symbol operand => exact .together calm_evaluating rfl
  | operate span symbol left =>
    refine .together ?_ rfl
    simp only [accept]
    cases result : operate symbol span left value with
    | ok value => exact calm_giving_ok
    | error error => exact calm_giving_error (operate_error_code result)
  | branch consequent =>
    simp only [accept]
    split
    · exact .together calm_evaluating rfl
    · exact .together calm_giving_ok rfl
  | callee span expr args =>
    simp only [accept]
    split
    · rename_i failure failed
      exact .together (calm_giving_error (calleeError?_code failed)) rfl
    · exact arguments_raise scope state remaining more span expr value [] args frames
  | argument span expr target done rest =>
    exact arguments_raise scope state remaining more span expr target (value :: done) rest frames
  | body span closure args rest caller =>
    cases rest with
    | nil =>
      refine .together calm_giving_ok ?_
      simp only [accept, giving, lift, Nat.add_right_comm remaining 1 gap]
      rfl
    | cons expr rest => exact .together calm_evaluating rfl

theorem reject_raise {error : EvalError} (calm : error.failure.code ≠ .stackOverflow)
    (frame : Frame) (frames : List Frame) :
    Parallel settings gap state remaining
      (reject settings error scope state remaining frame frames)
      (reject (settings.raise gap) error scope state (remaining + gap) frame frames) := by
  cases frame with
  | body span closure args rest caller =>
    refine .together (calm_giving_error calm) ?_
    simp only [reject, giving, lift, Nat.add_right_comm remaining 1 gap]
    rfl
  | _ => exact .together (calm_giving_error calm) rfl

end Step

theorem step_raise {settings : Settings} {gap : Nat} (more : 0 < gap) {m next : Machine}
    (calm : Calm m) (stepped : m.step settings = .inl next) :
    ∃ other, (m.lift gap).step (settings.raise gap) = .inl other ∧
      Parallel settings gap m.state m.remaining next other := by
  rcases m with ⟨control, scope, state, remaining, frames⟩
  cases control with
  | eval expr =>
    cases Sum.inl.inj stepped
    exact ⟨_, rfl, unfoldExpr_raise scope state remaining expr frames⟩
  | give outcome =>
    cases frames with
    | nil => simp [step] at stepped
    | cons frame frames =>
      cases outcome with
      | ok value =>
        cases Sum.inl.inj stepped
        exact ⟨_, rfl, accept_raise scope state remaining more value frame frames⟩
      | error error =>
        cases Sum.inl.inj stepped
        exact ⟨_, rfl, reject_raise scope state remaining (calm error rfl) frame frames⟩

theorem step_raise_end {settings : Settings} {gap : Nat} {m : Machine} {evaluated : Evaluated}
    (ended : m.step settings = .inr evaluated) :
    (m.lift gap).step (settings.raise gap) = .inr evaluated := by
  rw [step_eq_inr ended]
  rfl

/-! ## Whole runs under two limits -/

/-- A machine within its limit: the calls open and the calls left add up to it, and no more were
ever open. -/
structure Bounded (settings : Settings) (m : Machine) : Prop where
  budget : m.state.tracker.depth + m.remaining = settings.limit
  opened : openCalls m.frames ≤ m.state.tracker.depth
  seen : m.state.tracker.maxSeen ≤ settings.limit

theorem bounded_step {settings : Settings} {m next : Machine} (bounded : Bounded settings m)
    (stepped : m.step settings = .inl next) : Bounded settings next := by
  obtain ⟨budget, opened, seen⟩ := bounded
  cases step_effect stepped with
  | quiet nextId fresh stateEq remainingEq callsEq =>
    constructor <;> simp only [stateEq, remainingEq, callsEq] <;> assumption
  | enter span name args stateEq remainingEq callsEq =>
    constructor <;>
      simp only [stateEq, callsEq, EvalState.enter_tracker, Tracker.enter] <;> omega
  | leave span name error stateEq remainingEq callsEq =>
    constructor <;>
      simp only [stateEq, remainingEq, EvalState.leave_tracker, Tracker.leave] <;> omega

inductive Compared (settings : Settings) (low high : Evaluated) : Prop
  | same (calm : ¬ low.Overflows) (seen : low.state.tracker.maxSeen ≤ settings.limit)
      (agree : low = high)
  | refused (overflows : low.Overflows) (deeper : settings.limit < high.state.tracker.maxSeen)

theorem run_raise {settings : Settings} {gap : Nat} (more : 0 < gap) (m : Machine)
    (calm : Calm m) (bounded : Bounded settings m) :
    Compared settings (m.run settings) ((m.lift gap).run (settings.raise gap)) := by
  induction m using run_induction settings with
  | ended m evaluated ended =>
    rw [run_of_end ended, run_of_end (step_raise_end ended)]
    rw [step_eq_inr ended] at calm bounded
    refine .same ?_ bounded.seen rfl
    rintro ⟨error, failed, code⟩
    exact calm error (congrArg Control.give failed) code
  | stepped m next stepped ih =>
    obtain ⟨other, steppedHigh, parallel⟩ := step_raise more calm stepped
    rw [run_of_step stepped, run_of_step steppedHigh]
    cases parallel with
    | together nextCalm same =>
      rw [same]
      exact ih nextCalm (bounded_step bounded stepped)
    | refused span scope frames noneLeft refusal entered =>
      -- all calls the lower limit allows are open, so the higher run opens one more
      have depth : m.state.tracker.depth = settings.limit := by
        have budget := bounded.budget
        omega
      have opened : settings.limit < other.state.tracker.maxSeen := by
        rw [entered]
        simp only [Tracker.enter, depth]
        omega
      refine .refused ?_ (Nat.lt_of_lt_of_le opened (maxSeen_le_run _ other))
      rw [refusal]
      exact ⟨_, run_giving_error settings _ frames scope m.state 0, rfl⟩

end Machine

theorem Expr.evaluate_raise {settings : Settings} {gap : Nat} (more : 0 < gap) (expr : Expr)
    (scope : Scope) {state : EvalState} (depth : state.tracker.depth ≤ settings.limit)
    (seen : state.tracker.maxSeen ≤ settings.limit) :
    Machine.Compared settings (expr.evaluate settings scope state)
      (expr.evaluate (settings.raise gap) scope state) := by
  have left : state.remaining (settings.raise gap) = state.remaining settings + gap := by
    simp only [EvalState.remaining, Settings.raise]
    omega
  have start : Machine.Bounded settings
      (Machine.evaluating expr scope state (state.remaining settings) []) :=
    ⟨Nat.add_sub_cancel' depth, Nat.zero_le _, seen⟩
  unfold Expr.evaluate
  rw [left]
  exact Machine.run_raise more _ Machine.calm_evaluating start

inductive Execution.Compared (settings : Settings) (low high : Execution) : Prop
  | same (calm : ¬ low.Overflows) (seen : low.stats.maxSeen ≤ settings.limit) (agree : low = high)
  | refused (overflows : low.Overflows) (deeper : settings.limit < high.stats.maxSeen)
      (begun : low.values <+: high.values)

theorem Execution.Compared.prepend {settings : Settings} {low high : Execution} (value : Value)
    (compared : Execution.Compared settings low high) :
    Execution.Compared settings { low with values := value :: low.values }
      { high with values := value :: high.values } := by
  cases compared with
  | same calm seen agree =>
    subst agree
    exact .same calm seen rfl
  | refused overflows deeper begun =>
    exact .refused overflows deeper ((List.prefix_cons_inj value).mpr begun)

theorem executeFrom_raise {settings : Settings} {gap : Nat} (more : 0 < gap)
    (statements : List Expr) :
    ∀ (index : Nat) (scope : Scope) (state : EvalState), state.tracker.depth = 0 →
      state.tracker.maxSeen ≤ settings.limit →
      Execution.Compared settings (executeFrom settings index statements scope state)
        (executeFrom (settings.raise gap) index statements scope state) := by
  induction statements with
  | nil =>
    intro index scope state depth seen
    refine .same ?_ seen rfl
    rintro ⟨error, failed, code⟩
    cases failed
  | cons statement rest ih =>
    intro index scope state depth seen
    let opened := state.openStatement settings index statement
    have openedDepth : opened.tracker.depth = 0 := by simp [opened, depth]
    have openedSeen : opened.tracker.maxSeen ≤ settings.limit := by simpa [opened] using seen
    have compared := statement.evaluate_raise more scope (openedDepth ▸ Nat.zero_le _) openedSeen
    have closed := statement.evaluate_depth settings scope opened
    cases high : statement.evaluate (settings.raise gap) scope opened with
    | mk outcome after later =>
      rw [high] at compared
      cases compared with
      | same calm nowSeen low =>
        rw [low] at calm nowSeen closed
        cases outcome with
        | error error =>
          rw [executeFrom_error rest low, executeFrom_error rest high]
          refine .same ?_ nowSeen rfl
          rintro ⟨other, failed, code⟩
          cases failed
          exact calm ⟨error, rfl, code⟩
        | ok value =>
          rw [executeFrom_ok rest low, executeFrom_ok rest high]
          refine (ih (index + 1) after (later.closeStatement settings index statement) ?_
            ?_).prepend value
          · simpa using closed.trans openedDepth
          · simpa using nowSeen
      | refused overflows deeper =>
        -- the lower run ends here, while the higher one may still execute what follows
        obtain ⟨error, failed, code⟩ := overflows
        have low : statement.evaluate settings scope opened =
            ⟨.error error, (statement.evaluate settings scope opened).scope,
              (statement.evaluate settings scope opened).state⟩ := by rw [← failed]
        rw [executeFrom_error rest low]
        refine .refused ⟨error, rfl, code⟩ ?_ List.nil_prefix
        cases outcome with
        | error error =>
          rw [executeFrom_error rest high]
          exact deeper
        | ok value =>
          have seenAfter := maxSeen_le_executeFrom (settings.raise gap) rest (index + 1) after
            (later.closeStatement (settings.raise gap) index statement)
          rw [EvalState.closeStatement_tracker] at seenAfter
          rw [executeFrom_ok rest high]
          exact Nat.lt_of_lt_of_le deeper seenAfter

theorem Execution.Compared.closeRun {settings : Settings} {low high : Execution}
    (place : Option Span) (compared : Execution.Compared settings low high) :
    Execution.Compared settings
      { low with
        state := low.state.emit settings place (.runEnd (low.error.map EvalError.message)) }
      { high with
        state := high.state.emit settings place (.runEnd (high.error.map EvalError.message)) } := by
  cases compared with
  | same calm seen agree =>
    subst agree
    refine .same calm ?_ rfl
    simpa [Execution.stats] using seen
  | refused overflows deeper begun =>
    refine .refused overflows ?_ begun
    simpa [Execution.stats] using deeper

theorem Program.execute_raise {settings : Settings} {gap : Nat} (more : 0 < gap)
    (program : Program) (scope : Scope) (nextId : Nat) :
    Execution.Compared settings (program.execute settings scope nextId)
      (program.execute (settings.raise gap) scope nextId) := by
  refine (executeFrom_raise more program.statements 0 scope _ ?_ ?_).closeRun program.span.known?
  · rw [EvalState.emit_tracker]
    rfl
  · rw [EvalState.emit_tracker]
    exact Nat.zero_le _

/-- The higher of two limits tells whether the lower one is enough: it is exceeded exactly when more
calls than it allows are open at some time of the run under the higher limit.  If it is not
exceeded the two runs are the same, values, error, scope, statistics and events alike; if it is, the
lower run has the first of the values of the higher one. -/
theorem Program.depth_limit_adequate (program : Program) (scope : Scope) (nextId : Nat)
    (tracing : Bool) (runId : String) (lower higher : Int)
    (below : effectiveDepth lower < effectiveDepth higher) :
    let low := program.execute ⟨effectiveDepth lower, tracing, runId⟩ scope nextId
    let high := program.execute ⟨effectiveDepth higher, tracing, runId⟩ scope nextId
    (low.Overflows ↔ effectiveDepth lower < high.stats.maxSeen) ∧
      (¬ low.Overflows → low = high) ∧
      (low.Overflows → low.values <+: high.values) := by
  intro low high
  obtain ⟨less, gap⟩ := Nat.exists_eq_add_of_lt below
  have raised : (⟨effectiveDepth higher, tracing, runId⟩ : Settings) =
      Settings.raise ⟨effectiveDepth lower, tracing, runId⟩ (less + 1) := by
    rw [gap]
    rfl
  have compared : Execution.Compared ⟨effectiveDepth lower, tracing, runId⟩ low high := by
    simp only [low, high, raised]
    exact program.execute_raise (Nat.succ_pos less) scope nextId
  cases compared with
  | same calm seen agree =>
    refine ⟨⟨fun overflows => absurd overflows calm, fun deeper => ?_⟩, fun _ => agree,
      fun overflows => absurd overflows calm⟩
    rw [← agree] at deeper
    exact absurd deeper (Nat.not_lt.mpr seen)
  | refused overflows deeper begun =>
    exact ⟨⟨fun _ => deeper, fun _ => overflows⟩, fun calm => absurd overflows calm, fun _ => begun⟩

def Program.endless : Program :=
  ⟨Span.zero,
    [.define Span.zero "f"
      (.function Span.zero [] [.call Span.zero (.read Span.zero "f") []]),
    .call Span.zero (.read Span.zero "f") []]⟩

theorem Program.endless_overflows :
    (endless.execute ⟨effectiveDepth 1, false, ""⟩ Scope.empty 0).Overflows := by
  refine ⟨⟨.tooDeep 1, none⟩, ?_, rfl⟩
  simp only [Program.execute, endless, executeFrom, Expr.evaluate_eq_eval]
  rfl

theorem Program.depth_limit_adequate_endless :
    effectiveDepth 1 < effectiveDepth 2 ∧
      effectiveDepth 1 <
        (endless.execute ⟨effectiveDepth 2, false, ""⟩ Scope.empty 0).stats.maxSeen :=
  have below : effectiveDepth 1 < effectiveDepth 2 := by decide
  ⟨below, (endless.depth_limit_adequate Scope.empty 0 false "" 1 2 below).1.mp endless_overflows⟩

end Sapling
