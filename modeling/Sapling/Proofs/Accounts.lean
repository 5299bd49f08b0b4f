import Sapling.Proofs.Transparency
import Sapling.Proofs.Words

/-!
# Statistics and events

The statistics of an evaluator are accounts of the events it emits.  They stay so in whole sessions
of a host: after every use of the evaluator, whether it succeeded or failed, all calls are closed,
the calls counted are those that were reported as started and as ended, and the most calls ever open
are the largest depth reported, which is the limit as soon as a call has been refused for it.

One use adds a word to the events (`Told`), and `Tracker.Accounts.told` says that accounts stay true
under a word.  The rest follows the steps of the host, and the statements of an execution.
-/

set_option autoImplicit false

namespace Sapling

def TraceEvent.isStatementStart (event : TraceEvent) : Bool :=
  match event.step with
  | .statementStart .. => true
  | _ => false

/-- The statistics are what the events say, for settings under which there are events; all calls are
closed, and there were never more open than the limit allows. -/
structure Tracker.Accounts (settings : Settings) (events : List TraceEvent) (tracker : Tracker) :
    Prop where
  closed : tracker.depth = 0
  bounded : tracker.maxSeen ≤ settings.limit
  starts : settings.tracing → tracker.calls = events.countP TraceEvent.isCallStart
  ends : settings.tracing → tracker.calls = events.countP TraceEvent.isCallEnd
  deepest : settings.tracing → tracker.maxSeen = Sapling.deepest events
  statements : settings.tracing →
    tracker.statements = events.countP TraceEvent.isStatementStart

theorem Tracker.zero_accounts (settings : Settings) : Tracker.zero.Accounts settings [] := by
  constructor <;> simp [Tracker.zero, Sapling.deepest]

theorem Tracker.Accounts.reverse {settings : Settings} {events : List TraceEvent}
    {tracker : Tracker} (accounts : tracker.Accounts settings events) :
    tracker.Accounts settings events.reverse where
  closed := accounts.closed
  bounded := accounts.bounded
  starts := by simpa using accounts.starts
  ends := by simpa using accounts.ends
  deepest := by simpa using accounts.deepest
  statements := by simpa using accounts.statements

/-! ## Words -/

theorem Nested.no_statements {runId : String} {depth : Nat} {word : List TraceEvent}
    (nested : Nested runId depth word) : word.countP TraceEvent.isStatementStart = 0 := by
  induction nested with
  | nil depth => rfl
  | call span name args _ _ inner rest =>
    simp [TraceEvent.isStatementStart, inner, rest]

theorem Unwound.no_statements {runId message : String} {depth : Nat} {word : List TraceEvent}
    (unwound : Unwound runId message depth word) :
    word.countP TraceEvent.isStatementStart = 0 := by
  induction unwound with
  | closed before => exact before.no_statements
  | call span name args before _ inner =>
    simp [TraceEvent.isStatementStart, inner, before.no_statements]

section Words
variable {settings : Settings} {before after : EvalState} {error : Option EvalError}
  {word : List TraceEvent}

theorem Told.ends_eq_starts (told : Told settings before error after word) :
    word.countP TraceEvent.isCallEnd = word.countP TraceEvent.isCallStart := by
  have worded := told.worded
  cases error with
  | none => exact Nested.ends_eq_starts worded
  | some error => exact Unwound.ends_eq_starts worded

theorem Told.no_statements (told : Told settings before error after word) :
    word.countP TraceEvent.isStatementStart = 0 := by
  have worded := told.worded
  cases error with
  | none => exact Nested.no_statements worded
  | some error => exact Unwound.no_statements worded

theorem Tracker.Accounts.told (accounts : before.tracker.Accounts settings before.events)
    (told : Told settings before error after word) :
    after.tracker.Accounts settings after.events := by
  have events (traced : settings.tracing = true) :
      after.events = word.reverse ++ before.events := by
    rw [told.events, if_pos traced]
  rw [told.tracker]
  constructor
  · exact accounts.closed
  · exact Nat.max_le.mpr ⟨accounts.bounded, told.bounded⟩
  · intro traced
    have starts := accounts.starts traced
    simp only [events traced, List.countP_append, List.countP_reverse, Tracker.after]
    omega
  · intro traced
    have ends := accounts.ends traced
    have same := told.ends_eq_starts
    simp only [events traced, List.countP_append, List.countP_reverse, Tracker.after]
    omega
  · intro traced
    have deep := accounts.deepest traced
    simp only [events traced, deepest_append, deepest_reverse, Tracker.after]
    omega
  · intro traced
    have counted := accounts.statements traced
    have none := told.no_statements
    simp only [events traced, List.countP_append, List.countP_reverse, Tracker.after]
    omega

theorem Told.maxSeen_le (told : Told settings before error after word) :
    before.tracker.maxSeen ≤ after.tracker.maxSeen := by
  rw [told.tracker]
  exact Nat.le_max_left _ _

theorem Told.full {refusal : EvalError}
    (accounts : before.tracker.Accounts settings before.events)
    (told : Told settings before (some refusal) after word)
    (overflow : refusal.failure.code = .stackOverflow) :
    after.tracker.maxSeen = settings.limit := by
  have refused := told.refused refusal rfl overflow
  have bounded := (accounts.told told).bounded
  rw [accounts.closed] at refused
  rw [told.tracker] at bounded ⊢
  simp only [Tracker.after] at bounded ⊢
  omega

end Words

/-! ## Executions -/

section Executions
variable {settings : Settings} {state : EvalState}

/-- Whether the statistics count the step. -/
def TraceStep.isCounted : TraceStep → Bool
  | .callStart .. | .callEnd .. | .statementStart .. => true
  | .runStart | .runEnd _ | .statementEnd _ => false

theorem Tracker.Accounts.emit (accounts : state.tracker.Accounts settings state.events)
    (span : Option Span) (step : TraceStep) (other : step.isCounted = false) :
    (state.emit settings span step).tracker.Accounts settings
      (state.emit settings span step).events := by
  rw [EvalState.emit_tracker]
  unfold EvalState.emit
  split
  · let event : TraceEvent := ⟨settings.runId, span, step⟩
    have nothing : event.isCallStart = false ∧ event.isCallEnd = false ∧ event.depth = 0 ∧
        event.isStatementStart = false := by
      cases step <;> simp [TraceStep.isCounted] at other <;> exact ⟨rfl, rfl, rfl, rfl⟩
    obtain ⟨start, stop, depth, statement⟩ := nothing
    constructor
    · exact accounts.closed
    · exact accounts.bounded
    · simpa [List.countP_cons, event, start] using accounts.starts
    · simpa [List.countP_cons, event, stop] using accounts.ends
    · simpa [event, depth] using accounts.deepest
    · simpa [List.countP_cons, event, statement] using accounts.statements
  · exact accounts

theorem Tracker.Accounts.openStatement (accounts : state.tracker.Accounts settings state.events)
    (index : Nat) (statement : Expr) :
    (state.openStatement settings index statement).tracker.Accounts settings
      (state.openStatement settings index statement).events := by
  rw [EvalState.openStatement_tracker]
  constructor
  · exact accounts.closed
  · exact accounts.bounded
  all_goals
    intro traced
    simp only [EvalState.openStatement, EvalState.emit, traced, if_true]
  · simpa [List.countP_cons, TraceEvent.isCallStart] using accounts.starts traced
  · simpa [List.countP_cons, TraceEvent.isCallEnd] using accounts.ends traced
  · simpa [TraceEvent.depth] using accounts.deepest traced
  · simpa [List.countP_cons, TraceEvent.isStatementStart] using accounts.statements traced

theorem executeFrom_accounts (statements : List Expr) (index : Nat) (scope : Scope)
    (state : EvalState) (accounts : state.tracker.Accounts settings state.events) :
    let execution := executeFrom settings index statements scope state
    execution.state.tracker.Accounts settings execution.state.events ∧
      (execution.Overflows → execution.state.tracker.maxSeen = settings.limit) := by
  induction statements, index, scope, state using executeFrom_induction settings with
  | nil index scope state =>
    refine ⟨accounts, ?_⟩
    rintro ⟨error, failed, -⟩
    cases failed
  | fails index statement rest scope state error after later evaluated =>
    have opened := accounts.openStatement index statement
    obtain ⟨word, told⟩ := statement.evaluate_told settings scope
      (opened.closed ▸ Nat.zero_le settings.limit)
    rw [evaluated] at told
    refine ⟨opened.told told, ?_⟩
    rintro ⟨refusal, failed, overflow⟩
    cases failed
    exact Told.full opened told overflow
  | completes index statement rest scope state value after later others evaluated ih =>
    have opened := accounts.openStatement index statement
    obtain ⟨word, told⟩ := statement.evaluate_told settings scope
      (opened.closed ▸ Nat.zero_le settings.limit)
    rw [evaluated] at told
    exact ih ((opened.told told).emit statement.span.known? (.statementEnd index) rfl)

theorem Program.execute_accounts (program : Program) (scope : Scope) (nextId : Nat) :
    let execution := program.execute settings scope nextId
    execution.stats.Accounts settings execution.events ∧
      (execution.Overflows → execution.stats.maxSeen = settings.limit) := by
  intro execution
  let start := (EvalState.start nextId).emit settings program.span.known? .runStart
  have begun : start.tracker.Accounts settings start.events :=
    Tracker.Accounts.emit (Tracker.zero_accounts settings) _ .runStart rfl
  obtain ⟨accounts, full⟩ := executeFrom_accounts program.statements 0 scope start begun
  let last : TraceStep := .runEnd (execution.error.map EvalError.message)
  have ended := accounts.emit program.span.known? last rfl
  refine ⟨ended.reverse, fun overflows => ?_⟩
  have seen := full overflows
  simpa [execution, Program.execute, Execution.stats] using seen

end Executions

/-! ## Sessions of a host -/

/-- The step uses no evaluator but this one, makes it not anew, and leaves the events alone. -/
def HostStep.KeepsTo (name : String) : HostStep → Prop
  | .eval used _ _ _ | .call used _ _ _ => used = name
  | .evaluator other _ => other ≠ name
  | .events => False
  | _ => True

/-- A use of an evaluator that failed for the limit. -/
def HostReply.Overflows : HostReply → Prop
  | .outcome (.error error) => error.failure.code = .stackOverflow
  | _ => False

namespace Host

theorem store_events (host : Host) (target : Option String) (outcome : Outcome) :
    (host.store target outcome).events = host.events := by
  cases outcome with
  | error error => rfl
  | ok value => cases target <;> rfl

theorem store_evaluator (host : Host) (target : Option String) (outcome : Outcome)
    (name : String) : (host.store target outcome).evaluator name = host.evaluator name := by
  unfold evaluator
  rw [store_evaluators]

theorem leave_evaluator (host : Host) (name : String) (used : Evaluator) (state : EvalState) :
    (host.leave name used state).evaluator name = { used with tracker := state.tracker } := by
  unfold evaluator leave
  dsimp only
  rw [lookup_put, if_pos rfl]
  rfl

/-- What one step does to an evaluator and to the events: nothing, or the evaluator is used. -/
inductive Uses (settings : Settings) (name : String) (host next : Host) (reply : HostReply) : Prop
  | other (same : next.evaluator name = host.evaluator name) (events : next.events = host.events)
      (calm : ¬ reply.Overflows)
  | used {state : EvalState} {outcome : Outcome} {word : List TraceEvent}
      (told : Told settings (host.enter (host.evaluator name)) (failed? outcome) state word)
      (evaluator : next.evaluator name = { host.evaluator name with tracker := state.tracker })
      (events : next.events = state.events) (replied : reply = .outcome outcome)

theorem step_uses [Yaml.Library] (host : Host) {name : String} {step : HostStep}
    (own : step.KeepsTo name)
    (closed : (host.evaluator name).tracker.depth = 0) :
    Uses (host.evaluator name).settings name host (host.step step).1 (host.step step).2 := by
  have room : (host.enter (host.evaluator name)).tracker.depth ≤
      (host.evaluator name).settings.limit := closed ▸ Nat.zero_le _
  cases step with
  | eval used scope expr target =>
    cases own
    obtain ⟨word, told⟩ := expr.evaluate_told (host.evaluator name).settings (host.scope scope) room
    unfold Host.step
    dsimp only
    refine .used told ?_ ?_ rfl
    · rw [store_evaluator]
      exact leave_evaluator host name _ _
    · rw [store_events]
      rfl
  | call used callee args target =>
    cases own
    obtain ⟨word, told⟩ := (host.value callee).apply_told (host.evaluator name).settings
      (args.map host.value) room
    unfold Host.step
    dsimp only
    refine .used told ?_ ?_ rfl
    · rw [store_evaluator]
      exact leave_evaluator host name _ _
    · rw [store_events]
      rfl
  | evaluator other made =>
    have apart : name ≠ other := fun same => own same.symm
    have same : (host.step (.evaluator other made)).1.evaluator name = host.evaluator name := by
      unfold Host.step Host.evaluator
      dsimp only
      rw [lookup_put, if_neg apart]
    exact .other same rfl id
  | events => exact own.elim
  | get scope word target =>
    exact .other (store_evaluator host target _ name) (store_events host target _) id
  | captured value target =>
    unfold Host.step
    dsimp only
    split
    · exact .other rfl rfl id
    · exact .other rfl rfl id
  | run scope file bytes maxDepth =>
    unfold Host.step
    dsimp only
    split
    · exact .other rfl rfl id
    · exact .other rfl rfl id
  | _ => exact .other rfl rfl id

/-- An evaluator whose statistics are accounts of the events. -/
structure Keeps (settings : Settings) (name : String) (host : Host) : Prop where
  settings_eq : (host.evaluator name).settings = settings
  accounts : (host.evaluator name).tracker.Accounts settings host.events

theorem step_keeps [Yaml.Library] {settings : Settings} {name : String} {host : Host}
    {step : HostStep}
    (keeps : host.Keeps settings name) (own : step.KeepsTo name) :
    let next := (host.step step).1
    next.Keeps settings name ∧
      (host.evaluator name).tracker.maxSeen ≤ (next.evaluator name).tracker.maxSeen ∧
      ((host.step step).2.Overflows →
        (next.evaluator name).tracker.maxSeen = settings.limit) := by
  intro next
  obtain ⟨rfl, accounts⟩ := keeps
  cases host.step_uses own accounts.closed with
  | other same events calm =>
    have kept : next.evaluator name = host.evaluator name := same
    refine ⟨⟨by rw [kept], ?_⟩, Nat.le_of_eq (by rw [kept]), fun overflows => absurd overflows calm⟩
    rw [kept, show next.events = host.events from events]
    exact accounts
  | used told evaluator events replied =>
    rename_i state outcome word
    have after : next.evaluator name = { host.evaluator name with tracker := state.tracker } :=
      evaluator
    have started : (host.enter (host.evaluator name)).tracker.Accounts
        (host.evaluator name).settings (host.enter (host.evaluator name)).events := accounts
    refine ⟨⟨by rw [after], ?_⟩, ?_, ?_⟩
    · rw [after, show next.events = state.events from events]
      exact started.told told
    · rw [after]
      exact told.maxSeen_le
    · intro overflows
      rw [replied] at overflows
      rw [after]
      cases outcome with
      | ok value => exact overflows.elim
      | error refusal => exact Told.full started told overflows

theorem run_keeps [Yaml.Library] {settings : Settings} {name : String} (steps : List HostStep) :
    ∀ {host : Host}, host.Keeps settings name → (∀ step ∈ steps, step.KeepsTo name) →
      let ended := host.run steps
      ended.1.Keeps settings name ∧
        (host.evaluator name).tracker.maxSeen ≤ (ended.1.evaluator name).tracker.maxSeen ∧
        ((∃ reply ∈ ended.2, reply.Overflows) →
          (ended.1.evaluator name).tracker.maxSeen = settings.limit) := by
  induction steps with
  | nil =>
    intro host keeps own
    refine ⟨keeps, Nat.le_refl _, ?_⟩
    rintro ⟨reply, member, -⟩
    cases member
  | cons step rest ih =>
    intro host keeps own ended
    obtain ⟨first, others⟩ := List.forall_mem_cons.mp own
    obtain ⟨kept, more, full⟩ := step_keeps keeps first
    obtain ⟨keptAll, moreAll, fullAll⟩ := ih kept others
    refine ⟨keptAll, Nat.le_trans more moreAll, ?_⟩
    rintro ⟨reply, member, overflows⟩
    rcases List.mem_cons.mp member with rfl | later
    · -- the limit was reached in the first step, and is not exceeded later
      have reached := full overflows
      have bounded := keptAll.accounts.bounded
      have above : settings.limit ≤ (ended.1.evaluator name).tracker.maxSeen := by
        rw [← reached]
        exact moreAll
      exact Nat.le_antisymm bounded above
    · exact fullAll ⟨reply, later, overflows⟩

theorem run_append [Yaml.Library] (earlier later : List HostStep) :
    ∀ host : Host, (host.run (earlier ++ later)).1 = ((host.run earlier).1.run later).1 := by
  induction earlier with
  | nil => exact fun _ => rfl
  | cons step rest ih => exact fun host => ih (host.step step).1

/-- In every session of a host, an evaluator that was made when no events were left keeps its
accounts: after any number of uses, with other steps of the host between them, no calls are open, no
more were ever open than the limit allows, the calls are those that the events report as started and
as ended, and the most that were ever open are the largest depth reported.  That number never
decreases, and it is the limit once a use has failed for it.  The same holds of the statistics of an
execution, which count the statements reported as well. -/
theorem evaluator_accounts [Yaml.Library] (host : Host) (name : String) (maxDepth : Int)
    (tracing : Bool)
    (runId : String) (steps : List HostStep) (own : ∀ step ∈ steps, step.KeepsTo name) :
    let settings : Settings := ⟨effectiveDepth maxDepth, tracing, runId⟩
    let made := (host.run [.events, .evaluator name (.new maxDepth tracing runId)]).1
    let ended := made.run steps
    let stats := (ended.1.evaluator name).tracker
    stats.Accounts settings ended.1.events ∧
      (∀ earlier later, steps = earlier ++ later →
        ((made.run earlier).1.evaluator name).tracker.maxSeen ≤ stats.maxSeen) ∧
      ((∃ reply ∈ ended.2, reply.Overflows) → stats.maxSeen = settings.limit) ∧
      ∀ (program : Program) (scope : Scope) (nextId : Nat),
        let execution := program.execute settings scope nextId
        execution.stats.Accounts settings execution.events ∧
          (execution.Overflows → execution.stats.maxSeen = settings.limit) := by
  intro settings made ended stats
  have start : made.Keeps settings name := by
    have evaluator : made.evaluator name = .new maxDepth tracing runId := step_evaluator ..
    constructor
    · rw [evaluator]
      rfl
    · rw [evaluator]
      exact Tracker.zero_accounts settings
  obtain ⟨kept, -, full⟩ := run_keeps steps start own
  refine ⟨kept.accounts, ?_, full, fun program scope nextId =>
    program.execute_accounts scope nextId⟩
  intro earlier later split
  subst split
  have before := (run_keeps earlier start fun step member =>
    own step (List.mem_append_left later member)).1
  have after := (run_keeps later before fun step member =>
    own step (List.mem_append_right earlier member)).2.1
  simp only [stats, ended, run_append]
  exact after

def holdingEndless : Host :=
  { empty with values :=
    [("f", .function (.mk 0 "f" [] [.call Span.zero (.read Span.zero "f") []] []))] }

theorem evaluator_accounts_endless :
    let made := (holdingEndless.run [.events, .evaluator "e" (.new 2 true "r")]).1
    let ended := made.run [.call "e" (.stored "f") [] none]
    (∀ step ∈ [HostStep.call "e" (.stored "f") [] none], step.KeepsTo "e") ∧
      (∃ reply ∈ ended.2, reply.Overflows) ∧
      (ended.1.evaluator "e").tracker.maxSeen = 2 ∧ deepest ended.1.events = 2 := by
  intro made ended
  have own : ∀ step ∈ [HostStep.call "e" (.stored "f") [] none], step.KeepsTo "e" := by
    simp [HostStep.KeepsTo]
  have overflows : ∃ reply ∈ ended.2, reply.Overflows := by
    have evaluator : made.evaluator "e" = .new 2 true "r" := step_evaluator ..
    have replies : ended.2 = [(made.step (.call "e" (.stored "f") [] none)).2] := rfl
    refine ⟨_, replies ▸ List.mem_singleton_self _, ?_⟩
    rw [call_reply, evaluator, Value.apply_eq_call]
    rfl
  obtain ⟨accounts, -, full, -⟩ := evaluator_accounts holdingEndless "e" 2 true "r" _ own
  have seen : (ended.1.evaluator "e").tracker.maxSeen = 2 := full overflows
  exact ⟨own, overflows, seen, (accounts.deepest rfl).symm.trans seen⟩

end Host
end Sapling
