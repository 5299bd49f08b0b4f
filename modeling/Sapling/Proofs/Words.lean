import Sapling.Proofs.DepthLimit
import Sapling.Proofs.Simulation

/-!
# Words of calls

The calls made by an evaluation, told by the events at which they are opened and closed, form a word
of brackets.  If the evaluation succeeds, the word is `Nested`: every call in it is closed, without
an error.  If it fails, the word is `Unwound`: after calls that were closed, some calls are left
open, and the word ends with their ends, from the innermost outwards, each with the message of the
error.

The word also tells what becomes of the statistics, so that nothing else has to be known of an
evaluation (`Told`): each start counts as a call, and the largest depth of a start is the most calls
that were open.  `Expr.evaluate_told` and `Value.apply_told` say that every evaluation and every
call has such a word.
-/

set_option autoImplicit false

namespace Sapling

/-- Calls made while `depth` others are open, each of them closed. -/
inductive Nested (runId : String) : (depth : Nat) → List TraceEvent → Prop
  | nil (depth : Nat) : Nested runId depth []
  | call {depth : Nat} (span : Option Span) (name : String) (args : Nat)
      {inner rest : List TraceEvent} (inside : Nested runId (depth + 1) inner)
      (after : Nested runId depth rest) :
      Nested runId depth (⟨runId, span, .callStart name args (depth + 1)⟩ :: inner ++
        ⟨runId, span, .callEnd name none⟩ :: rest)

/-- Calls made while `depth` others are open, up to an error: those still open are closed with its
message. -/
inductive Unwound (runId message : String) : (depth : Nat) → List TraceEvent → Prop
  | closed {depth : Nat} {word : List TraceEvent} (before : Nested runId depth word) :
      Unwound runId message depth word
  | call {depth : Nat} (span : Option Span) (name : String) (args : Nat)
      {done inner : List TraceEvent} (before : Nested runId depth done)
      (inside : Unwound runId message (depth + 1) inner) :
      Unwound runId message depth (done ++ ⟨runId, span, .callStart name args (depth + 1)⟩ ::
        inner ++ [⟨runId, span, .callEnd name (some message)⟩])

theorem Nested.append {runId : String} {depth : Nat} {first second : List TraceEvent}
    (before : Nested runId depth first) (after : Nested runId depth second) :
    Nested runId depth (first ++ second) := by
  induction before with
  | nil depth => exact after
  | call span name args inside _ _ ih =>
    rw [List.append_assoc, List.cons_append]
    exact .call span name args inside (ih after)

theorem Nested.append_unwound {runId message : String} {depth : Nat}
    {first second : List TraceEvent} (before : Nested runId depth first)
    (after : Unwound runId message depth second) :
    Unwound runId message depth (first ++ second) := by
  cases after with
  | closed after => exact .closed (before.append after)
  | call span name args done inside =>
    rw [← List.append_assoc, ← List.append_assoc]
    exact .call span name args (before.append done) inside

def Worded (runId : String) (depth : Nat) (word : List TraceEvent) : Option EvalError → Prop
  | none => Nested runId depth word
  | some error => Unwound runId error.message depth word

/-! ## Counting -/

def TraceEvent.isCallStart (event : TraceEvent) : Bool :=
  match event.step with
  | .callStart .. => true
  | _ => false

def TraceEvent.isCallEnd (event : TraceEvent) : Bool :=
  match event.step with
  | .callEnd .. => true
  | _ => false

def TraceEvent.depth (event : TraceEvent) : Nat :=
  match event.step with
  | .callStart _ _ depth => depth
  | _ => 0

def deepest (events : List TraceEvent) : Nat := (events.map TraceEvent.depth).foldr max 0

@[simp] theorem deepest_nil : deepest [] = 0 := rfl

@[simp] theorem deepest_cons (event : TraceEvent) (rest : List TraceEvent) :
    deepest (event :: rest) = max event.depth (deepest rest) := rfl

@[simp] theorem deepest_append (first second : List TraceEvent) :
    deepest (first ++ second) = max (deepest first) (deepest second) := by
  induction first with
  | nil => simp
  | cons event rest ih => simp [ih, Nat.max_assoc]

@[simp] theorem deepest_reverse (events : List TraceEvent) :
    deepest events.reverse = deepest events := by
  induction events with
  | nil => rfl
  | cons event rest ih => simp [ih, Nat.max_comm]

theorem Nested.ends_eq_starts {runId : String} {depth : Nat} {word : List TraceEvent}
    (nested : Nested runId depth word) :
    word.countP TraceEvent.isCallEnd = word.countP TraceEvent.isCallStart := by
  induction nested with
  | nil depth => rfl
  | call span name args _ _ inner rest =>
    simp [List.countP_cons, TraceEvent.isCallEnd, TraceEvent.isCallStart, inner, rest]
    omega

theorem Unwound.ends_eq_starts {runId message : String} {depth : Nat} {word : List TraceEvent}
    (unwound : Unwound runId message depth word) :
    word.countP TraceEvent.isCallEnd = word.countP TraceEvent.isCallStart := by
  induction unwound with
  | closed before => exact before.ends_eq_starts
  | call span name args before _ inner =>
    simp [List.countP_cons, TraceEvent.isCallEnd, TraceEvent.isCallStart, inner,
      before.ends_eq_starts]

/-- The statistics after the calls of a word. -/
def Tracker.after (tracker : Tracker) (word : List TraceEvent) : Tracker :=
  { tracker with
    maxSeen := max tracker.maxSeen (deepest word)
    calls := tracker.calls + word.countP TraceEvent.isCallStart }

theorem Tracker.after_nil (tracker : Tracker) : tracker.after [] = tracker := by
  simp [Tracker.after]

theorem Tracker.after_append (tracker : Tracker) (first second : List TraceEvent) :
    tracker.after (first ++ second) = (tracker.after first).after second := by
  simp [Tracker.after, Nat.max_assoc, Nat.add_assoc]

theorem Tracker.after_call (tracker : Tracker) (runId : String) (span : Option Span)
    (name : String) (args : Nat) (inner : List TraceEvent) (error : Option String) :
    (tracker.enter.after inner).leave =
      tracker.after (⟨runId, span, .callStart name args (tracker.depth + 1)⟩ :: inner ++
        [⟨runId, span, .callEnd name error⟩]) := by
  simp [Tracker.after, Tracker.enter, Tracker.leave, List.countP_cons, TraceEvent.isCallStart,
    TraceEvent.depth, Nat.max_assoc]
  omega

/-! ## What an evaluation tells -/

def failed? {α : Type} : Except EvalError α → Option EvalError
  | .ok _ => none
  | .error error => some error

/-- All that is left of what happened between two states is the word of the calls made: which
events were emitted, if any are, and what the statistics became.  No call is deeper than the limit,
and one that was refused found as many calls open. -/
structure Told (settings : Settings) (before : EvalState) (error : Option EvalError)
    (after : EvalState) (word : List TraceEvent) : Prop where
  events : after.events = if settings.tracing then word.reverse ++ before.events else before.events
  tracker : after.tracker = before.tracker.after word
  worded : Worded settings.runId before.tracker.depth word error
  bounded : deepest word ≤ settings.limit
  refused : ∀ refusal, error = some refusal → refusal.failure.code = .stackOverflow →
    settings.limit ≤ max before.tracker.depth (deepest word)

section Told
variable {settings : Settings} {before between after : EvalState} {error : Option EvalError}

theorem Told.depth {word : List TraceEvent} (told : Told settings before error after word) :
    after.tracker.depth = before.tracker.depth := by
  rw [told.tracker]
  rfl

theorem Told.silent (events : after.events = before.events)
    (tracker : after.tracker = before.tracker)
    (calm : ∀ refusal, error = some refusal → refusal.failure.code ≠ .stackOverflow) :
    Told settings before error after [] where
  events := by simp [events]
  tracker := by rw [tracker, Tracker.after_nil]
  worded := by
    cases error with
    | none => exact .nil _
    | some error => exact .closed (.nil _)
  bounded := Nat.zero_le _
  refused := fun refusal same overflow => absurd overflow (calm refusal same)

theorem Told.trans {first second : List TraceEvent}
    (earlier : Told settings before none between first)
    (later : Told settings between error after second) :
    Told settings before error after (first ++ second) where
  events := by
    rw [later.events, earlier.events]
    cases settings.tracing <;> simp
  tracker := by rw [later.tracker, earlier.tracker, Tracker.after_append]
  worded := by
    have worded := later.worded
    rw [earlier.depth] at worded
    cases error with
    | none => exact Nested.append earlier.worded worded
    | some error => exact Nested.append_unwound earlier.worded worded
  bounded := by
    rw [deepest_append]
    exact Nat.max_le.mpr ⟨earlier.bounded, later.bounded⟩
  refused := by
    intro refusal same overflow
    have opened := later.refused refusal same overflow
    rw [earlier.depth] at opened
    rw [deepest_append]
    omega

end Told

def Evaluated.Tells (settings : Settings) (state : EvalState) (ended : Evaluated) : Prop :=
  ∃ word, Told settings state (failed? ended.outcome) ended.state word

def Invoke.Tells (settings : Settings) (depth : Nat) (invoke : Invoke) : Prop :=
  ∀ closure args span (state : EvalState), state.tracker.depth = depth →
    ∃ word, Told settings state (failed? (invoke closure args span state).1)
      (invoke closure args span state).2 word

section Expressions
variable {settings : Settings} {depth : Nat} {invoke : Invoke}

theorem Evaluated.tells_ok (settings : Settings) (state : EvalState) (value : Value)
    (scope : Scope) : Evaluated.Tells settings state ⟨.ok value, scope, state⟩ :=
  ⟨[], .silent rfl rfl nofun⟩

theorem Evaluated.tells_error (settings : Settings) (state : EvalState) {failure : Failure}
    (span : Option Span) (scope : Scope) (calm : failure.code ≠ .stackOverflow) :
    Evaluated.Tells settings state ⟨.error ⟨failure, span⟩, scope, state⟩ := by
  refine ⟨[], .silent rfl rfl ?_⟩
  rintro refusal ⟨⟩
  exact calm

theorem Evaluated.Tells.andThen {state : EvalState} {first : Evaluated}
    {next : Value → Scope → EvalState → Evaluated} (tells : first.Tells settings state)
    (goesOn : ∀ value scope (later : EvalState), later.tracker.depth = state.tracker.depth →
      (next value scope later).Tells settings later) :
    (first.andThen next).Tells settings state := by
  rcases first with ⟨outcome, scope, later⟩
  obtain ⟨word, told⟩ := tells
  cases outcome with
  | error error => exact ⟨word, told⟩
  | ok value =>
    obtain ⟨others, rest⟩ := goesOn value scope later told.depth
    exact ⟨word ++ others, told.trans rest⟩

theorem operate_tells (settings : Settings) (state : EvalState) (symbol : String)
    (span : Option Span) (a b : Value) (scope : Scope) :
    Evaluated.Tells settings state ⟨operate symbol span a b, scope, state⟩ := by
  cases given : operate symbol span a b with
  | ok value => exact Evaluated.tells_ok settings state value scope
  | error error =>
    exact Evaluated.tells_error settings state error.span scope (operate_error_code given)

theorem callTarget_tells (invokes : invoke.Tells settings depth) (span : Option Span)
    (callee : Expr) (target : Value) (values : List Value) (scope : Scope) {state : EvalState}
    (now : state.tracker.depth = depth) :
    (callTarget invoke span callee target values scope state).Tells settings state := by
  cases target with
  | function closure => exact invokes closure values span state now
  | undefined => exact Evaluated.tells_error settings state span scope (noCallee_code callee)
  | number value => exact Evaluated.tells_error settings state span scope (noCallee_code callee)
  | boolean value => exact Evaluated.tells_error settings state span scope (noCallee_code callee)

mutual

theorem Expr.evalWith_tells (invokes : invoke.Tells settings depth) :
    ∀ (expr : Expr) (scope : Scope) (state : EvalState), state.tracker.depth = depth →
      (expr.evalWith invoke scope state).Tells settings state
  | .hole, scope, state, _ => by
    rw [Expr.evalWith]
    exact Evaluated.tells_error settings state none scope (by simp [Failure.code])
  | .literal _ _, scope, state, _ => by
    rw [Expr.evalWith]
    exact Evaluated.tells_ok settings state _ scope
  | .read _ _, scope, state, _ => by
    rw [Expr.evalWith]
    exact Evaluated.tells_ok settings state _ scope
  | .function _ _ _, scope, state, _ => by
    rw [Expr.evalWith]
    exact ⟨[], .silent rfl rfl nofun⟩
  | .define span name value, scope, state, now => by
    rw [Expr.evalWith_define]
    refine (value.evalWith_tells invokes scope state now).andThen fun result scope later _ => ?_
    exact Evaluated.tells_ok settings later _ _
  | .binary span symbol left right, scope, state, now => by
    rw [Expr.evalWith_binary]
    refine (left.evalWith_tells invokes scope state now).andThen fun a scope later same => ?_
    refine (right.evalWith_tells invokes scope later (same.trans now)).andThen
      fun b scope last _ => ?_
    exact operate_tells settings last symbol span.known? a b scope
  | .guarded span condition consequent, scope, state, now => by
    rw [Expr.evalWith_guarded]
    refine (condition.evalWith_tells invokes scope state now).andThen
      fun test scope later same => ?_
    split
    · exact consequent.evalWith_tells invokes scope later (same.trans now)
    · exact Evaluated.tells_ok settings later _ scope
  | .call span callee args, scope, state, now => by
    rw [Expr.evalWith_call]
    refine (callee.evalWith_tells invokes scope state now).andThen
      fun target scope later same => ?_
    split
    · rename_i failure failed
      exact Evaluated.tells_error settings later span.known? scope (calleeError?_code failed)
    · exact evalArgs_tells invokes args scope later _ (same.trans now)
        fun values scope last now => callTarget_tells invokes span.known? callee target values
          scope now

theorem evalArgs_tells (invokes : invoke.Tells settings depth) :
    ∀ (args : List Expr) (scope : Scope) (state : EvalState)
      (next : List Value → Scope → EvalState → Evaluated), state.tracker.depth = depth →
      (∀ values scope (later : EvalState), later.tracker.depth = depth →
        (next values scope later).Tells settings later) →
      (withArgs (evalArgs invoke args scope state) next).Tells settings state
  | [], scope, state, next, now, goesOn => by
    rw [evalArgs]
    exact goesOn [] scope state now
  | arg :: rest, scope, state, next, now, goesOn => by
    rw [withArgs_cons]
    refine (arg.evalWith_tells invokes scope state now).andThen fun value scope later same => ?_
    exact evalArgs_tells invokes rest scope later _ (same.trans now)
      fun values => goesOn (value :: values)

end

theorem runBody_tells (invokes : invoke.Tells settings depth) (closure : Closure)
    (args : List Value) (body : List Expr) :
    ∀ (last : Value) (state : EvalState), state.tracker.depth = depth →
      ∃ word, Told settings state (failed? (runBody invoke closure args body last state).1)
        (runBody invoke closure args body last state).2 word := by
  induction body with
  | nil =>
    intro last state _
    exact ⟨[], .silent rfl rfl nofun⟩
  | cons expr rest ih =>
    intro last state now
    obtain ⟨word, told⟩ := expr.evalWith_tells invokes (closure.callScope args) state now
    rw [runBody]
    cases evaluated : expr.evalWith invoke (closure.callScope args) state with
    | mk outcome scope later =>
      rw [evaluated] at told
      cases outcome with
      | error error => exact ⟨word, told⟩
      | ok value =>
        obtain ⟨others, after⟩ := ih value later (told.depth.trans now)
        exact ⟨word ++ others, told.trans after⟩

end Expressions

/-! ## Calls -/

theorem Told.call {settings : Settings} {state ended : EvalState} {outcome : Outcome}
    {word : List TraceEvent} (span : Option Span) (name : String) (args : Nat)
    (room : state.tracker.depth < settings.limit)
    (body : Told settings (state.enter settings span name args) (failed? outcome) ended word) :
    Told settings state (failed? outcome)
      (ended.leave settings span name (errorMessage? outcome))
      (⟨settings.runId, span, .callStart name args (state.tracker.depth + 1)⟩ :: word ++
        [⟨settings.runId, span, .callEnd name (errorMessage? outcome)⟩]) := by
  have depth : (state.enter settings span name args).tracker.depth = state.tracker.depth + 1 := by
    rw [EvalState.enter_tracker]
    rfl
  constructor
  · have emitted := body.events
    simp only [EvalState.enter, EvalState.leave, EvalState.emit] at emitted ⊢
    cases traced : settings.tracing
    · simpa [traced] using emitted
    · simp only [traced, if_true] at emitted ⊢
      simp [emitted, Tracker.enter]
  · rw [EvalState.leave_tracker, body.tracker, EvalState.enter_tracker, Tracker.after_call]
  · have worded := body.worded
    rw [depth] at worded
    cases outcome with
    | ok value => exact .call span name args worded (.nil _)
    | error error => exact .call span name args (.nil _) worded
  · have bounded := body.bounded
    simp only [List.cons_append, deepest_cons, deepest_append, deepest_nil, TraceEvent.depth]
    omega
  · intro refusal same overflow
    have refused := body.refused refusal same overflow
    rw [depth] at refused
    simp only [List.cons_append, deepest_cons, deepest_append, TraceEvent.depth]
    omega

theorem invokeAt_tells (settings : Settings) (remaining : Nat) :
    ∀ depth, depth + remaining = settings.limit →
      (invokeAt settings remaining).Tells settings depth := by
  induction remaining with
  | zero =>
    intro depth budget closure args span state now
    rw [invokeAt]
    split
    · refine ⟨[], .silent rfl rfl ?_⟩
      rintro refusal ⟨⟩
      simp [Failure.code]
    · refine ⟨[], by simp, by rw [Tracker.after_nil], .closed (.nil _), Nat.zero_le _, ?_⟩
      intro _ _ _
      rw [now]
      omega
  | succ remaining ih =>
    intro depth budget closure args span state now
    rw [invokeAt]
    split
    · refine ⟨[], .silent rfl rfl ?_⟩
      rintro refusal ⟨⟩
      simp [Failure.code]
    · have inside : (state.enter settings span closure.name args.length).tracker.depth =
          depth + 1 := by
        rw [EvalState.enter_tracker, ← now]
        rfl
      have invokes := ih (depth + 1) (by omega)
      obtain ⟨word, body⟩ := runBody_tells invokes closure args closure.body .undefined
        (state.enter settings span closure.name args.length) inside
      exact ⟨_, body.call span closure.name args.length (by omega)⟩

section Told
variable (settings : Settings) {state : EvalState}

theorem Expr.evaluate_told (expr : Expr) (scope : Scope)
    (within : state.tracker.depth ≤ settings.limit) :
    (expr.evaluate settings scope state).Tells settings state := by
  rw [Expr.evaluate_eq_eval]
  have invokes := invokeAt_tells settings (state.remaining settings) state.tracker.depth
    (Nat.add_sub_cancel' within)
  exact expr.evalWith_tells invokes scope state rfl

theorem Value.apply_told (callee : Value) (args : List Value)
    (within : state.tracker.depth ≤ settings.limit) :
    ∃ word, Told settings state (failed? (callee.apply settings args state).1)
      (callee.apply settings args state).2 word := by
  rw [Value.apply_eq_call]
  have invokes := invokeAt_tells settings (state.remaining settings) state.tracker.depth
    (Nat.add_sub_cancel' within)
  cases callee with
  | function closure => exact invokes closure args none state rfl
  | undefined =>
    exact Evaluated.tells_error settings state none Scope.empty (by simp [Failure.code])
  | number value =>
    exact Evaluated.tells_error settings state none Scope.empty (by simp [Failure.code])
  | boolean value =>
    exact Evaluated.tells_error settings state none Scope.empty (by simp [Failure.code])

end Told

end Sapling
