import Sapling.Proofs.Words

/-!
# The grammar of traces

A traced run reports its start, every statement that completes between its start and end, then the
start of a statement that fails if one does, and its own end.  What is reported between the start
and the end of a statement is the word of the calls it makes (`Nested`), and after the start of a
statement that fails, the word of the calls it makes until then, closed in order (`Unwound`).  The
ends with an error are then the last events of that word, as many as there are calls left open
(`Unwound.closesOpen`).
-/

set_option autoImplicit false

namespace Sapling

def TraceEvent.failure? (event : TraceEvent) : Option String :=
  match event.step with
  | .callEnd _ message => message
  | _ => none

/-- The word ends with a block of failures, all with this message, one for each call that is open in
front of it.  Nothing in front of it is a failure. -/
def ClosesOpen (message : String) (word : List TraceEvent) : Prop :=
  ∃ front block, word = front ++ block ∧ (∀ event ∈ front, event.failure? = none) ∧
    (∀ event ∈ block, event.isCallEnd = true ∧ event.failure? = some message) ∧
    front.countP TraceEvent.isCallStart = front.countP TraceEvent.isCallEnd + block.length

theorem Nested.no_failures {runId : String} {depth : Nat} {word : List TraceEvent}
    (nested : Nested runId depth word) : ∀ event ∈ word, event.failure? = none := by
  induction nested with
  | nil depth => nofun
  | call span name args _ _ inner rest =>
    intro event there
    simp only [List.cons_append, List.mem_cons, List.mem_append] at there
    rcases there with rfl | within | rfl | after
    · rfl
    · exact inner event within
    · rfl
    · exact rest event after

theorem Unwound.closesOpen {runId message : String} {depth : Nat} {word : List TraceEvent}
    (unwound : Unwound runId message depth word) : ClosesOpen message word := by
  induction unwound with
  | closed before =>
    refine ⟨_, [], (List.append_nil _).symm, before.no_failures, nofun, ?_⟩
    rw [before.ends_eq_starts]
    rfl
  | @call depth span name args done inner before inside ih =>
    obtain ⟨front, block, rfl, clean, failed, counted⟩ := ih
    have done_clean := before.no_failures
    have done_counted := before.ends_eq_starts
    -- the failures inside are followed by that of the call itself
    refine ⟨done ++ ⟨runId, span, .callStart name args (depth + 1)⟩ :: front,
      block ++ [⟨runId, span, .callEnd name (some message)⟩], by simp, ?_, ?_, ?_⟩
    · intro event there
      rcases List.mem_append.mp there with earlier | later
      · exact done_clean event earlier
      · rcases List.mem_cons.mp later with rfl | within
        · rfl
        · exact clean event within
    · intro event there
      rcases List.mem_append.mp there with within | last
      · exact failed event within
      · cases List.mem_singleton.mp last
        exact ⟨rfl, rfl⟩
    · have start :
          TraceEvent.isCallStart ⟨runId, span, .callStart name args (depth + 1)⟩ = true := rfl
      have notEnd :
          TraceEvent.isCallEnd ⟨runId, span, .callStart name args (depth + 1)⟩ = false := rfl
      simp only [List.countP_append, List.countP_cons, List.length_append, List.length_singleton,
        start, notEnd, if_true]
      simp only [Bool.false_eq_true, if_false]
      omega

/-- The events of statements that complete, the first of which has the given index. -/
inductive Completed (runId : String) : (index : Nat) → List Expr → List TraceEvent → Prop
  | nil (index : Nat) : Completed runId index [] []
  | cons {index : Nat} (statement : Expr) {rest : List Expr} {word events : List TraceEvent}
      (calls : Nested runId 0 word) (others : Completed runId (index + 1) rest events) :
      Completed runId index (statement :: rest)
        (⟨runId, statement.span.known?, .statementStart index statement.kind⟩ :: word ++
          ⟨runId, statement.span.known?, .statementEnd index⟩ :: events)

/-- The events of statements, the first of which has the given index, when `completed` of them
complete and the next one, if there is any, fails with the error. -/
inductive Stated (runId : String) (index : Nat) (statements : List Expr) :
    Option EvalError → (completed : Nat) → List TraceEvent → Prop
  | success {events : List TraceEvent} (all : Completed runId index statements events) :
      Stated runId index statements none statements.length events
  | failure {error : EvalError} (before : List Expr) {after : List Expr} {statement : Expr}
      {events word : List TraceEvent} (split : statements = before ++ statement :: after)
      (earlier : Completed runId index before events)
      (calls : Unwound runId error.message 0 word) (closes : ClosesOpen error.message word) :
      Stated runId index statements (some error) before.length
        (events ++ ⟨runId, statement.span.known?,
          .statementStart (index + before.length) statement.kind⟩ :: word)

/-- The events of a run in which `completed` statements complete and the next one, if there is any,
fails with the error. -/
inductive Trace (runId : String) (program : Program) (error : Option EvalError)
    (completed : Nat) : List TraceEvent → Prop
  | run {events : List TraceEvent}
      (stated : Stated runId 0 program.statements error completed events) :
      Trace runId program error completed
        (⟨runId, program.span.known?, .runStart⟩ :: events ++
          [⟨runId, program.span.known?, .runEnd (error.map EvalError.message)⟩])

theorem Stated.cons {runId : String} {index completed : Nat} {statement : Expr}
    {rest : List Expr} {error : Option EvalError} {word events : List TraceEvent}
    (calls : Nested runId 0 word) (others : Stated runId (index + 1) rest error completed events) :
    Stated runId index (statement :: rest) error (completed + 1)
      (⟨runId, statement.span.known?, .statementStart index statement.kind⟩ :: word ++
        ⟨runId, statement.span.known?, .statementEnd index⟩ :: events) := by
  cases others with
  | success all => exact .success (.cons statement calls all)
  | failure before split earlier ends closes =>
    have whole := Stated.failure (statement :: before) (congrArg (statement :: ·) split)
      (.cons statement calls earlier) ends closes
    rw [List.length_cons, ← Nat.add_assoc, Nat.add_right_comm] at whole
    simpa using whole

section Statements
variable (limit : Nat) (runId : String)

theorem EvalState.openStatement_events (state : EvalState) (index : Nat) (statement : Expr) :
    (state.openStatement ⟨limit, true, runId⟩ index statement).events =
      ⟨runId, statement.span.known?, .statementStart index statement.kind⟩ :: state.events := by
  simp [EvalState.openStatement, EvalState.emit]

theorem EvalState.closeStatement_events (state : EvalState) (index : Nat) (statement : Expr) :
    (state.closeStatement ⟨limit, true, runId⟩ index statement).events =
      ⟨runId, statement.span.known?, .statementEnd index⟩ :: state.events := by
  simp [EvalState.closeStatement, EvalState.emit]

theorem executeFrom_stated (statements : List Expr) (index : Nat) (scope : Scope)
    (state : EvalState) (closed : state.tracker.depth = 0) :
    let execution := executeFrom ⟨limit, true, runId⟩ index statements scope state
    ∃ events, execution.state.events = events.reverse ++ state.events ∧
      Stated runId index statements execution.error execution.values.length events := by
  induction statements, index, scope, state using
    executeFrom_induction (⟨limit, true, runId⟩ : Settings) with
  | nil index scope state => exact ⟨[], rfl, .success (.nil index)⟩
  | fails index statement rest scope state error after later evaluated =>
    have open0 : (state.openStatement ⟨limit, true, runId⟩ index statement).tracker.depth = 0 := by
      simp [closed]
    obtain ⟨word, told⟩ := statement.evaluate_told ⟨limit, true, runId⟩ scope
      (open0 ▸ Nat.zero_le limit)
    rw [evaluated] at told
    have worded := told.worded
    rw [open0] at worded
    refine ⟨⟨runId, statement.span.known?, .statementStart index statement.kind⟩ :: word, ?_,
      .failure [] rfl (.nil index) worded worded.closesOpen⟩
    have emitted := told.events
    rw [EvalState.openStatement_events] at emitted
    simpa using emitted
  | completes index statement rest scope state value after later others evaluated ih =>
    have open0 : (state.openStatement ⟨limit, true, runId⟩ index statement).tracker.depth = 0 := by
      simp [closed]
    obtain ⟨word, told⟩ := statement.evaluate_told ⟨limit, true, runId⟩ scope
      (open0 ▸ Nat.zero_le limit)
    rw [evaluated] at told
    have worded := told.worded
    rw [open0] at worded
    have still : later.tracker.depth = 0 := told.depth.trans open0
    obtain ⟨events, added, stated⟩ := ih (by simpa using still)
    refine ⟨_, ?_, stated.cons worded⟩
    have emitted := told.events
    rw [EvalState.openStatement_events] at emitted
    rw [EvalState.closeStatement_events] at added
    simp only [if_true] at emitted
    simp [added, emitted]

end Statements

/-- The events of a run have exactly the shape of a trace: the run's start; for each statement that
completes its start, the calls it makes, each closed without an error, and its end; for a statement
that fails its start and the calls it makes, those still open being closed by a last block of ends
with the message of the error; the run's end, with that message if there is one.  All have the name
of the run. -/
theorem Program.execute_trace (limit : Nat) (runId : String) (program : Program) (scope : Scope)
    (nextId : Nat) :
    let execution := program.execute ⟨limit, true, runId⟩ scope nextId
    Trace runId program execution.error execution.values.length execution.events := by
  intro execution
  let settings : Settings := ⟨limit, true, runId⟩
  let start := (EvalState.start nextId).emit settings program.span.known? .runStart
  have closed : start.tracker.depth = 0 := by
    simp only [start, EvalState.emit_tracker]
    rfl
  obtain ⟨events, added, stated⟩ :=
    executeFrom_stated limit runId program.statements 0 scope start closed
  have same : execution.events = ⟨runId, program.span.known?, .runStart⟩ :: events ++
      [⟨runId, program.span.known?, .runEnd (execution.error.map EvalError.message)⟩] := by
    have last : execution.state.events =
        ⟨runId, program.span.known?, .runEnd (execution.error.map EvalError.message)⟩ ::
          (executeFrom settings 0 program.statements scope start).state.events := rfl
    rw [Execution.events, last, added]
    simp [start, EvalState.start, EvalState.emit, settings]
  rw [same]
  exact .run stated

def Program.callsThenRefused : Program :=
  let place (line : Nat) : Span := ⟨"a.yaml", line, 1⟩
  ⟨place 1,
    [.call (place 2) (.function (place 3) ["x"] [.read (place 4) "x"]) [.literal (place 5) 1],
      .call (place 6) (.define (place 7) "f"
        (.function (place 8) [] [.call (place 9) (.function (place 10) [] []) []])) []]⟩

/-- The call that is refused has no events; the one around it ends with the error. -/
theorem Program.execute_trace_callsThenRefused :
    let event (line : Nat) (step : TraceStep) : TraceEvent := ⟨"r", some ⟨"a.yaml", line, 1⟩, step⟩
    let message := "cannot call a function with an empty body"
    Trace "r" callsThenRefused (some ⟨.emptyBody, some ⟨"a.yaml", 9, 1⟩⟩) 1
      [event 1 .runStart,
        event 2 (.statementStart 0 "Call"), event 2 (.callStart "" 1 1), event 2 (.callEnd "" none),
        event 2 (.statementEnd 0),
        event 6 (.statementStart 1 "Call"), event 6 (.callStart "f" 0 1),
        event 6 (.callEnd "f" (some message)),
        event 1 (.runEnd (some message))] := by
  intro event message
  have traced := callsThenRefused.execute_trace 5 "r" Scope.empty 0
  simp only [callsThenRefused, Program.execute, executeFrom, Expr.evaluate_eq_eval] at traced
  exact traced

end Sapling
