import Sapling.Proofs.Identities

/-!
# Splitting a program

The statements of a program may be executed in one go or in two: first some of them and then, on the
scope these leave, the others.  In one go the evaluator carries its statistics on, while in two it
starts afresh for the second part.  That makes no difference to what the second part does, because
all calls are closed between statements (`executeFrom_depth`), and the calls and the depth seen
before have no influence (`executeFrom_afresh`).
-/

set_option autoImplicit false

namespace Sapling

/-! ## What one statement does to the statistics -/

theorem Expr.evaluate_statements (settings : Settings) (expr : Expr) (scope : Scope)
    (state : EvalState) :
    (expr.evaluate settings scope state).state.tracker.statements = state.tracker.statements := by
  refine Machine.run_preserves settings
    (fun m => m.state.tracker.statements = state.tracker.statements)
    (fun ended => ended.state.tracker.statements = state.tracker.statements) ?_ ?_ _ rfl
  · intro m next holds stepped
    cases Machine.step_effect stepped with
    | quiet nextId fresh stateEq remainingEq callsEq =>
      rw [stateEq]
      exact holds
    | enter span name args stateEq remainingEq callsEq =>
      rw [stateEq, EvalState.enter_tracker]
      exact holds
    | leave span name error stateEq remainingEq callsEq =>
      rw [stateEq, EvalState.leave_tracker]
      exact holds
  · intro m evaluated holds ended
    rw [Machine.step_eq_inr ended] at holds
    exact holds

theorem executeFrom_depth (settings : Settings) (statements : List Expr) (index : Nat)
    (scope : Scope) (state : EvalState) :
    (executeFrom settings index statements scope state).state.tracker.depth =
      state.tracker.depth := by
  induction statements, index, scope, state using executeFrom_induction settings with
  | nil index scope state => rfl
  | fails index statement rest scope state error after later evaluated =>
    have closed := statement.evaluate_depth settings scope
      (state.openStatement settings index statement)
    rw [evaluated, EvalState.openStatement_tracker] at closed
    exact closed
  | completes index statement rest scope state value after later others evaluated ih =>
    have closed := statement.evaluate_depth settings scope
      (state.openStatement settings index statement)
    rw [evaluated, EvalState.openStatement_tracker] at closed
    rw [EvalState.closeStatement_tracker] at ih
    exact ih.trans closed

/-- How far an execution of these statements came: to the end, or to the statement whose number is
the number of values, after the statements before it had completed. -/
inductive Execution.Progress (settings : Settings) (index : Nat) (statements : List Expr)
    (scope : Scope) (state : EvalState) (execution : Execution) : Prop
  | completed (success : execution.error = none)
      (values : execution.values.length = statements.length)
      (counted : execution.state.tracker.statements =
        state.tracker.statements + statements.length)
  | failed (error : EvalError) (failure : execution.error = some error)
      (before : execution.values.length < statements.length)
      (counted : execution.state.tracker.statements =
        state.tracker.statements + execution.values.length + 1)
      (begun : (executeFrom settings index (statements.take execution.values.length) scope
        state).error = none)
      (values : (executeFrom settings index (statements.take execution.values.length) scope
        state).values = execution.values)

theorem executeFrom_progress (settings : Settings) (statements : List Expr) (index : Nat)
    (scope : Scope) (state : EvalState) :
    Execution.Progress settings index statements scope state
      (executeFrom settings index statements scope state) := by
  induction statements, index, scope, state using executeFrom_induction settings with
  | nil index scope state => exact .completed rfl rfl rfl
  | fails index statement rest scope state error after later evaluated =>
    have begins := statement.evaluate_statements settings scope
      (state.openStatement settings index statement)
    rw [evaluated, EvalState.openStatement_tracker] at begins
    exact .failed error rfl (Nat.succ_pos _) begins rfl rfl
  | completes index statement rest scope state value after later others evaluated ih =>
    have begins := statement.evaluate_statements settings scope
      (state.openStatement settings index statement)
    rw [evaluated, EvalState.openStatement_tracker] at begins
    -- fewer statements begin in the same way, the first of them being the same
    have fewer := fun rest => executeFrom_ok rest evaluated
    cases ih with
    | completed success values counted =>
      rw [EvalState.closeStatement_tracker, begins] at counted
      refine .completed success ?_ ?_
      · simp only [List.length_cons, values]
      · simp only [List.length_cons, counted]
        omega
    | failed error failure before counted begun values =>
      rw [EvalState.closeStatement_tracker, begins] at counted
      refine .failed error failure ?_ ?_ ?_ ?_
      · simp only [List.length_cons]
        omega
      · simp only [List.length_cons, counted]
        omega
      · simp only [List.length_cons, List.take_succ_cons, fewer]
        exact begun
      · simp only [List.length_cons, List.take_succ_cons, fewer, values]

/-! ## One part after another -/

section Append
variable (settings : Settings) (later : List Expr)

theorem executeFrom_append_error {error : EvalError} (earlier : List Expr) (index : Nat)
    (scope : Scope) (state : EvalState)
    (failed : (executeFrom settings index earlier scope state).error = some error) :
    executeFrom settings index (earlier ++ later) scope state =
      executeFrom settings index earlier scope state := by
  induction earlier, index, scope, state using executeFrom_induction settings with
  | nil index scope state => cases failed
  | fails index statement rest scope state error after later evaluated =>
    exact executeFrom_error _ evaluated
  | completes index statement rest scope state value after later others evaluated ih =>
    rw [List.cons_append, executeFrom_ok _ evaluated, ih failed]

theorem executeFrom_append (earlier : List Expr) (index : Nat) (scope : Scope)
    (state : EvalState)
    (completed : (executeFrom settings index earlier scope state).error = none) :
    executeFrom settings index (earlier ++ later) scope state =
      let first := executeFrom settings index earlier scope state
      let second :=
        executeFrom settings (index + earlier.length) later first.scope first.state
      { second with values := first.values ++ second.values } := by
  induction earlier, index, scope, state using executeFrom_induction settings with
  | nil index scope state => rfl
  | fails index statement rest scope state error after later evaluated => cases completed
  | completes index statement rest scope state value after later others evaluated ih =>
    rw [List.cons_append, executeFrom_ok _ evaluated, ih completed, List.length_cons,
      Nat.add_right_comm index, Nat.add_assoc index]
    rfl

end Append

/-- Statements do the same, wherever they stand and whatever was done before, as in a program of
their own, and add the same to the statistics. -/
theorem executeFrom_afresh (settings : Settings) (span : Span) (statements : List Expr)
    (index : Nat) (scope : Scope) {state : EvalState} (closed : state.tracker.depth = 0) :
    let resumed := executeFrom settings index statements scope state
    let fresh := (⟨span, statements⟩ : Program).execute settings scope state.nextId
    resumed.values = fresh.values ∧ resumed.error = fresh.error ∧ resumed.scope = fresh.scope ∧
      resumed.stats = fresh.stats.onto state.tracker ∧
      resumed.state.nextId = fresh.state.nextId := by
  intro resumed fresh
  let sim : Simulation settings settings :=
    .elsewhere rfl ⟨state.tracker, state.nextId⟩ ⟨Tracker.zero, state.nextId⟩
  have opening : ∀ {a b : EvalState} (place : Nat) (statement : Expr), sim.state a b →
      sim.state (a.openStatement settings (index + place) statement)
        (b.openStatement settings place statement) := by
    rintro a b place statement ⟨work, made, first, second, firstId, secondId⟩
    refine ⟨{ work with statements := work.statements + 1 }, made, ?_, ?_, ?_, ?_⟩
    · rw [EvalState.openStatement_tracker, first]
      rfl
    · rw [EvalState.openStatement_tracker, second]
      rfl
    · rw [EvalState.openStatement_nextId, firstId]
    · rw [EvalState.openStatement_nextId, secondId]
  have closing : ∀ {a b : EvalState} (place : Nat) (statement : Expr), sim.state a b →
      sim.state (a.closeStatement settings (index + place) statement)
        (b.closeStatement settings place statement) := by
    rintro a b place statement ⟨work, made, first, second, firstId, secondId⟩
    refine ⟨work, made, ?_, ?_, ?_, ?_⟩
    · rw [EvalState.closeStatement_tracker, first]
    · rw [EvalState.closeStatement_tracker, second]
    · rw [EvalState.closeStatement_nextId, firstId]
    · rw [EvalState.closeStatement_nextId, secondId]
  have start : sim.state state
      ((EvalState.start state.nextId).emit settings span.known? .runStart) := by
    refine ⟨Tracker.idle 0, 0, (Tracker.idle_onto closed).symm, ?_, rfl, ?_⟩
    · rw [EvalState.emit_tracker, Tracker.onto_zero]
      rfl
    · rw [EvalState.emit_nextId]
      rfl
  -- identities are counted from the same number, so values and scopes that correspond are equal
  have unmoved : ∀ value : Value,
      value.rename (countFrom state.nextId state.nextId) = value := fun value =>
    Value.rename_eq_self (value.each_of_forall fun closure => countFrom_self _ closure.id)
  obtain ⟨values, error, scopes, work, made, first, second, firstId, secondId⟩ :=
    sim.executeFrom_keeps index opening closing statements 0 (List.Subset.refl _)
      (Scope.rename_eq_self fun binding _ => unmoved binding.2).symm start
  refine ⟨?_, error, ?_, ?_, ?_⟩
  · have equal : List.Forall₂ Eq resumed.values fresh.values :=
      values.imp fun v w lifted => ((Value.lift_rename_iff.mp lifted).trans (unmoved v)).symm
    exact List.forall₂_eq_eq_eq ▸ equal
  · exact (scopes.trans (Scope.rename_eq_self fun binding _ => unmoved binding.2)).symm
  · have stats : fresh.stats = work := by
      simp only [fresh, Execution.stats, Program.execute, EvalState.emit_tracker, second,
        Tracker.onto_zero]
    rw [stats]
    exact first
  · have nextId : fresh.state.nextId = state.nextId + made := by
      simp only [fresh, Program.execute, EvalState.emit_nextId, secondId]
    rw [nextId]
    exact firstId

theorem Program.execute_eq_executeFrom (settings : Settings) (span : Span)
    (statements : List Expr) (scope : Scope) (nextId : Nat) :
    ∃ start : EvalState, start.tracker = Tracker.zero ∧ start.nextId = nextId ∧
      let execution := (⟨span, statements⟩ : Program).execute settings scope nextId
      let ran := executeFrom settings 0 statements scope start
      execution.values = ran.values ∧ execution.error = ran.error ∧
        execution.scope = ran.scope ∧ execution.stats = ran.stats := by
  refine ⟨(EvalState.start nextId).emit settings span.known? .runStart, ?_, ?_, rfl, rfl, rfl, ?_⟩
  · rw [EvalState.emit_tracker]
    rfl
  · rw [EvalState.emit_nextId]
    rfl
  · simp only [Program.execute, Execution.stats, EvalState.emit_tracker]

theorem Program.execute_depth (settings : Settings) (program : Program) (scope : Scope)
    (nextId : Nat) : (program.execute settings scope nextId).stats.depth = 0 := by
  obtain ⟨start, tracker, -, -, -, -, stats⟩ :=
    Program.execute_eq_executeFrom settings program.span program.statements scope nextId
  rw [stats]
  refine (executeFrom_depth settings program.statements 0 scope start).trans ?_
  rw [tracker]
  rfl

/-- Whether a program is executed in one go or split into two cannot be told from what it does.  If
the first part succeeds, the whole does what the second part does on the scope that the first
leaves: it has the values of both, the second one's error or success and scope, and their statistics
taken together.  If the first part fails, it fails at some statement `k`, having executed those
before it, and the whole does exactly the same, so that nothing after that statement has an effect.
-/
theorem Program.splitting_unobservable (settings : Settings) (whole front back : Span)
    (earlier later : List Expr) (scope : Scope) (nextId : Nat) :
    let first := (⟨front, earlier⟩ : Program).execute settings scope nextId
    let second := (⟨back, later⟩ : Program).execute settings first.scope first.state.nextId
    let all := (⟨whole, earlier ++ later⟩ : Program).execute settings scope nextId
    (first.error = none →
      all.values = first.values ++ second.values ∧ all.error = second.error ∧
        all.scope = second.scope ∧
        all.stats =
          { depth := 0
            maxSeen := max first.stats.maxSeen second.stats.maxSeen
            calls := first.stats.calls + second.stats.calls
            statements := first.stats.statements + second.stats.statements }) ∧
      ∀ error, first.error = some error →
        ∃ k < earlier.length,
          (let before := (⟨front, earlier.take k⟩ : Program).execute settings scope nextId
           before.error = none ∧ before.values = first.values) ∧
          first.values.length = k ∧ first.stats.statements = k + 1 ∧
          all.error = some error ∧ all.values = first.values ∧ all.scope = first.scope ∧
          all.stats = first.stats := by
  intro first second all
  obtain ⟨start, tracker, startId, allValues, allError, allScope, allStats⟩ :=
    Program.execute_eq_executeFrom settings whole (earlier ++ later) scope nextId
  have closed : start.tracker.depth = 0 := by rw [tracker]; rfl
  -- the first part, as it is executed within the whole
  obtain ⟨values, error, scopes, stats, ids⟩ :=
    executeFrom_afresh settings front earlier 0 scope closed
  rw [startId] at values error scopes stats ids
  rw [tracker, Tracker.onto_zero] at stats
  let ran := executeFrom settings 0 earlier scope start
  constructor
  · intro completed
    have joined := executeFrom_append settings later earlier 0 scope start
      (error.trans completed)
    have between : ran.state.tracker.depth = 0 :=
      (executeFrom_depth settings earlier 0 scope start).trans closed
    obtain ⟨nextValues, nextError, nextScope, nextStats, -⟩ :=
      executeFrom_afresh settings back later (0 + earlier.length) ran.scope between
    have onwards : (⟨back, later⟩ : Program).execute settings ran.scope ran.state.nextId =
        second := by
      simp only [second, first, ran, scopes, ids]
    rw [onwards] at nextValues nextError nextScope nextStats
    rw [joined] at allValues allError allScope allStats
    refine ⟨?_, ?_, ?_, ?_⟩
    · rw [allValues, ← values]
      exact congrArg (ran.values ++ ·) nextValues
    · exact allError.trans nextError
    · exact allScope.trans nextScope
    · have added : all.stats = second.stats.onto first.stats := by
        rw [← stats]
        exact allStats.trans nextStats
      have depth : second.stats.depth = 0 := Program.execute_depth settings _ _ _
      rw [added, Tracker.onto, depth]
  · intro failure failed
    rw [executeFrom_append_error settings later earlier 0 scope start (error.trans failed)]
      at allValues allError allScope allStats
    cases executeFrom_progress settings earlier 0 scope start with
    | completed success => rw [error.trans failed] at success; cases success
    | failed error' failure' before counted begun reached =>
      obtain ⟨takenValues, takenError, -⟩ := executeFrom_afresh settings front
        (earlier.take ran.values.length) 0 scope closed
      rw [startId] at takenValues takenError
      rw [tracker] at counted
      refine ⟨ran.values.length, before, ⟨?_, ?_⟩, ?_, ?_, ?_, ?_, ?_, ?_⟩
      · exact takenError.symm.trans begun
      · exact (takenValues.symm.trans reached).trans values
      · exact congrArg List.length values.symm
      · rw [← stats]
        exact counted.trans (by simp [Tracker.zero, ran])
      · exact allError.trans (error.trans failed)
      · exact allValues.trans values
      · exact allScope.trans scopes
      · exact allStats.trans stats

def Expr.bindsOne : Expr := .define Span.zero "x" (.literal Span.zero 1)

def Expr.callsOne : Expr := .call Span.zero (.literal Span.zero 1) []

theorem Program.splitting_unobservable_callsOne :
    let settings : Settings := ⟨1, false, ""⟩
    let binds := (⟨Span.zero, [.bindsOne]⟩ : Program).execute settings Scope.empty 0
    let calls :=
      (⟨Span.zero, [.callsOne]⟩ : Program).execute settings binds.scope binds.state.nextId
    let both := (⟨Span.zero, [.bindsOne, .callsOne]⟩ : Program).execute settings Scope.empty 0
    let more := (⟨Span.zero, [.bindsOne, .callsOne, .bindsOne]⟩ : Program).execute settings
      Scope.empty 0
    (binds.error = none ∧ both.values = binds.values ++ calls.values ∧ both.error = calls.error) ∧
      both.error = some ⟨.notFunction "number", none⟩ ∧ more.values = both.values ∧
      more.scope = both.scope := by
  intro settings binds calls both more
  have completed : binds.error = none := by
    simp only [binds, Program.execute, Expr.bindsOne, executeFrom, Expr.evaluate_eq_eval]
    rfl
  have failed : both.error = some ⟨.notFunction "number", none⟩ := by
    simp only [both, Program.execute, Expr.bindsOne, Expr.callsOne, executeFrom,
      Expr.evaluate_eq_eval]
    rfl
  obtain ⟨joined, error, -, -⟩ := (Program.splitting_unobservable settings Span.zero Span.zero
    Span.zero [.bindsOne] [.callsOne] Scope.empty 0).1 completed
  obtain ⟨k, -, -, -, -, -, values, scope, -⟩ :=
    (Program.splitting_unobservable settings Span.zero Span.zero Span.zero
      [.bindsOne, .callsOne] [.bindsOne] Scope.empty 0).2 _ failed
  exact ⟨⟨completed, joined, error⟩, failed, values, scope⟩

end Sapling
