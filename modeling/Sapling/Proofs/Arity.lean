import Mathlib.Data.List.TakeDrop
import Sapling.Proofs.Closures
import Sapling.Proofs.Simulation

/-!
# How many arguments a call has

Parameters take their arguments by position.  A parameter without an argument is bound all the same,
to no value, and an argument without a parameter is dropped.  Of equal parameters the last one
counts, and each hides what the function was made with (`Scope.find?_bindAll_last`).

So a call does not depend on how many arguments there are beyond the parameters, or are missing.
The scopes of its body are the same (`Closure.callScope_takeD`), and the only trace of the number is
in the event with which the call opens.  That what happens afterwards is the same, event for event,
is another simulation (`Simulation.since`): of two evaluations before which different events were
reported.
-/

set_option autoImplicit false

namespace Sapling

/-! ## The scope of a call -/

namespace Scope

theorem find?_bindAll_of_notMem {params : List String} {name : String} (other : name ∉ params) :
    ∀ (scope : Scope) (args : List Value),
      (scope.bindAll params args).find? name = scope.find? name := by
  induction params with
  | nil =>
    intro scope args
    rfl
  | cons param params ih =>
    intro scope args
    rw [List.mem_cons, not_or] at other
    cases args <;> rw [bindAll, ih other.2, find?_bind, if_neg (Ne.symm other.1)]

/-- A parameter takes the argument at its last position. -/
theorem find?_bindAll_last {name : String} {after : List String} (last : name ∉ after)
    (before : List String) : ∀ (scope : Scope) (args : List Value),
      (scope.bindAll (before ++ name :: after) args).find? name =
        some (args.getD before.length .undefined) := by
  induction before with
  | nil =>
    intro scope args
    cases args <;> rw [List.nil_append, bindAll, find?_bindAll_of_notMem last, find?_bind,
      if_pos rfl] <;> rfl
  | cons param before ih =>
    intro scope args
    cases args with
    | nil =>
      rw [List.cons_append, bindAll, ih]
      rfl
    | cons arg args =>
      rw [List.cons_append, bindAll, ih]
      rfl

theorem bindAll_takeD (params : List String) : ∀ (scope : Scope) (args : List Value),
    scope.bindAll params (args.takeD params.length .undefined) = scope.bindAll params args := by
  induction params with
  | nil =>
    intro scope args
    rfl
  | cons param params ih =>
    intro scope args
    cases args with
    | nil => exact ih (scope.bind param .undefined) []
    | cons arg args => exact ih (scope.bind param arg) args

end Scope

theorem Closure.callScope_takeD (closure : Closure) (args : List Value) :
    closure.callScope (args.takeD closure.params.length .undefined) = closure.callScope args :=
  Scope.bindAll_takeD closure.params closure.captured args

theorem runBody_congr (invoke : Invoke) {closure : Closure} {args others : List Value}
    (same : closure.callScope args = closure.callScope others) (body : List Expr) :
    ∀ last state, runBody invoke closure args body last state =
      runBody invoke closure others body last state := by
  induction body with
  | nil =>
    intro last state
    rfl
  | cons expr rest ih =>
    intro last state
    rw [runBody, runBody, same]
    split
    · rfl
    · exact ih _ _

/-! ## After other events -/

/-- States that differ only in the events that were there before. -/
structure EvalState.Since (here there : List TraceEvent) (a b : EvalState) : Prop where
  tracker : a.tracker = b.tracker
  nextId : a.nextId = b.nextId
  events : ∃ since, a.events = since ++ here ∧ b.events = since ++ there

theorem EvalState.Since.emit {here there : List TraceEvent} {a b : EvalState}
    (states : a.Since here there b) (settings : Settings) (span : Option Span) (step : TraceStep) :
    (a.emit settings span step).Since here there (b.emit settings span step) := by
  obtain ⟨tracker, nextId, since, first, second⟩ := states
  unfold EvalState.emit
  split
  · refine ⟨tracker, nextId, ⟨settings.runId, span, step⟩ :: since, ?_, ?_⟩
    · rw [List.cons_append, first]
    · rw [List.cons_append, second]
  · exact ⟨tracker, nextId, since, first, second⟩

theorem Value.lift_eq_iff {v w : Value} : Value.Lift Eq v w ↔ v = w := by
  constructor
  · intro same
    cases same with
    | function functions => rw [functions]
    | _ => rfl
  · rintro rfl
    cases v with
    | undefined => exact .undefined
    | number value => exact .number value
    | boolean value => exact .boolean value
    | function closure => exact .function rfl

theorem Outcomes.eq {x y : Outcome} (outcomes : Outcomes (Value.Lift Eq) x y) : x = y := by
  cases outcomes with
  | ok results => rw [Value.lift_eq_iff.mp results]
  | error error => rfl

/-- Evaluations of one expression in one scope, before which different events were reported. -/
def Simulation.since {first second : Settings} (same : first = second)
    (here there : List TraceEvent) : Simulation first second where
  closure := Eq
  scope _ := Eq
  state := EvalState.Since here there
  limit := congrArg Settings.limit same
  depth := by
    intro a b states
    rw [states.tracker]
  code := by
    rintro c d rfl
    exact ⟨rfl, rfl, rfl⟩
  snapshot := by
    rintro c d rfl
    rfl
  named := by
    rintro c d name rfl
    rfl
  get := by
    rintro names s t name rfl asked
    exact Value.lift_eq_iff.mpr rfl
  bind := by
    rintro names s t name v w rfl values
    rw [Value.lift_eq_iff.mp values]
  make := by
    rintro names s t a b params body reads rfl states
    rw [states.nextId]
  fresh := by
    intro a b states
    exact ⟨states.tracker, congrArg (· + 1) states.nextId, states.events⟩
  enter := by
    intro a b span name args states
    have entered : EvalState.Since here there { a with tracker := b.tracker.enter }
        { b with tracker := b.tracker.enter } := ⟨rfl, states.nextId, states.events⟩
    unfold EvalState.enter
    rw [states.tracker, same]
    exact entered.emit second span _
  leave := by
    intro a b span name error states
    rw [same]
    have closed := states.emit second span (.callEnd name error)
    exact ⟨congrArg Tracker.leave closed.tracker, closed.nextId, closed.events⟩

/-! ## Calls -/

/-- The event with which a call of so many arguments opens, where it opens and is traced. -/
def Closure.opening (closure : Closure) (settings : Settings) (state : EvalState) (count : Nat) :
    List TraceEvent :=
  if settings.tracing ∧ closure.body ≠ [] ∧ state.tracker.depth < settings.limit then
    [⟨settings.runId, none, .callStart closure.name count (state.tracker.depth + 1)⟩]
  else []

section Calls
variable (closure : Closure) (settings : Settings) (state : EvalState)

theorem Closure.call_refused
    (refused : closure.body = [] ∨ settings.limit ≤ state.tracker.depth) :
    ∃ error, ∀ args, (Value.function closure).call settings args state = (.error error, state) := by
  by_cases empty : closure.body = []
  · refine ⟨⟨.emptyBody, none⟩, fun args => ?_⟩
    rw [Value.call]
    cases state.remaining settings <;> rw [invokeAt, if_pos (by simpa using empty)]
  · have spent : state.remaining settings = 0 := by
      have full := refused.resolve_left empty
      rw [EvalState.remaining]
      omega
    refine ⟨⟨.tooDeep settings.limit, none⟩, fun args => ?_⟩
    rw [Value.call, spent, invokeAt, if_neg (by simpa using empty)]

theorem Closure.call_opened (nonempty : closure.body ≠ [])
    (below : state.tracker.depth < settings.limit) :
    ∃ remaining, ∀ args, (Value.function closure).call settings args state =
      let ran := runBody (invokeAt settings remaining) closure args closure.body .undefined
        (state.enter settings none closure.name args.length)
      (ran.1, ran.2.leave settings none closure.name (errorMessage? ran.1)) := by
  obtain ⟨remaining, left⟩ : ∃ remaining, state.remaining settings = remaining + 1 := by
    refine ⟨settings.limit - state.tracker.depth - 1, ?_⟩
    rw [EvalState.remaining]
    omega
  refine ⟨remaining, fun args => ?_⟩
  rw [Value.call, left, invokeAt, if_neg (by simpa using nonempty)]

theorem Closure.enter_opening (nonempty : closure.body ≠ [])
    (below : state.tracker.depth < settings.limit) (count : Nat) :
    state.enter settings none closure.name count =
      ⟨state.tracker.enter, state.nextId,
        closure.opening settings state count ++ state.events⟩ := by
  unfold EvalState.enter EvalState.emit Closure.opening
  cases traced : settings.tracing with
  | true => simp [nonempty, below, Tracker.enter]
  | false => simp

/-- Calls end alike if the scopes of their bodies are the same, whatever the numbers of their
arguments. -/
theorem Closure.call_congr {args others : List Value}
    (same : closure.callScope args = closure.callScope others) :
    let ended := (Value.function closure).call settings args state
    let other := (Value.function closure).call settings others state
    ended.1 = other.1 ∧
      ended.2.Since (closure.opening settings state args.length ++ state.events)
        (closure.opening settings state others.length ++ state.events) other.2 := by
  intro ended other
  by_cases opens : closure.body ≠ [] ∧ state.tracker.depth < settings.limit
  · obtain ⟨nonempty, below⟩ := opens
    obtain ⟨remaining, called⟩ := closure.call_opened settings state nonempty below
    let sim := Simulation.since (rfl : settings = settings)
      (closure.opening settings state args.length ++ state.events)
      (closure.opening settings state others.length ++ state.events)
    have entered : sim.state (state.enter settings none closure.name args.length)
        (state.enter settings none closure.name others.length) := by
      have enters := closure.enter_opening settings state nonempty below
      rw [enters, enters]
      exact ⟨rfl, rfl, [], rfl, rfl⟩
    have given : List.Forall₂ sim.value others others :=
      List.forall₂_same.mpr fun value _ => Value.lift_eq_iff.mpr rfl
    let ran (count : Nat) := runBody (invokeAt settings remaining) closure others closure.body
      .undefined (state.enter settings none closure.name count)
    obtain ⟨outcomes, states⟩ : Outcomes sim.value (ran args.length).1 (ran others.length).1 ∧
        sim.state (ran args.length).2 (ran others.length).2 :=
      Simulation.runBody_keeps (sim.invokeAt_keeps remaining) rfl given closure.body
        (List.Subset.refl _) .undefined entered
    have here : ended = ((ran args.length).1, (ran args.length).2.leave settings none closure.name
        (errorMessage? (ran args.length).1)) := by
      simp only [ran, ← runBody_congr _ same]
      exact called args
    have there : other = ((ran others.length).1, (ran others.length).2.leave settings none
        closure.name (errorMessage? (ran others.length).1)) := called others
    rw [here, there, outcomes.eq]
    exact ⟨rfl, sim.leave none closure.name _ states⟩
  · have refusal : closure.body = [] ∨ settings.limit ≤ state.tracker.depth := by
      by_cases empty : closure.body = []
      · exact .inl empty
      · exact .inr (Nat.le_of_not_lt fun below => opens ⟨empty, below⟩)
    obtain ⟨error, refused⟩ := closure.call_refused settings state refusal
    have here : ended = (.error error, state) := refused args
    have there : other = (.error error, state) := refused others
    have silent (count : Nat) : closure.opening settings state count = [] :=
      if_neg fun traced => opens traced.2
    rw [here, there, silent, silent]
    exact ⟨rfl, rfl, rfl, [], rfl, rfl⟩

end Calls

/-- A called function sees each parameter bound to the argument at its last position, or to no value
if there is none, and other names as it captured them.  Hence a call ends the same with its
arguments cut or filled up to as many as there are parameters: with the same value or error,
statistics, next identity and events, but for the number in the event with which it opens. -/
theorem Closure.arguments_by_position (closure : Closure) (args : List Value) :
    (∀ before name after, closure.params = before ++ name :: after → name ∉ after →
      (closure.callScope args).find? name = some (args.getD before.length .undefined)) ∧
    (∀ name, name ∉ closure.params →
      (closure.callScope args).find? name = closure.captured.find? name) ∧
    ∀ (settings : Settings) (state : EvalState),
      let fitted := args.takeD closure.params.length .undefined
      let ended := (Value.function closure).apply settings args state
      let other := (Value.function closure).apply settings fitted state
      ended.1 = other.1 ∧ ended.2.tracker = other.2.tracker ∧ ended.2.nextId = other.2.nextId ∧
        ∃ since,
          ended.2.events =
              since ++ closure.opening settings state args.length ++ state.events ∧
            other.2.events =
              since ++ closure.opening settings state closure.params.length ++ state.events := by
  refine ⟨fun before name after split last => ?_, fun name other => ?_, fun settings state => ?_⟩
  · rw [Closure.callScope, split]
    exact Scope.find?_bindAll_last last before _ args
  · exact Scope.find?_bindAll_of_notMem other _ args
  · intro fitted ended other
    obtain ⟨outcome, tracker, nextId, since, here, there⟩ :=
      closure.call_congr settings state (closure.callScope_takeD args).symm
    rw [List.takeD_length] at there
    simp only [ended, other, Value.apply_eq_call]
    refine ⟨outcome, tracker, nextId, since, ?_, ?_⟩
    · rw [List.append_assoc]
      exact here
    · rw [List.append_assoc]
      exact there

def Closure.crowded : Closure :=
  .mk 0 "f" ["x", "f", "x"] [.read Span.zero "x"] [("x", .boolean true)]

theorem Closure.arguments_by_position_crowded :
    (crowded.callScope [.boolean false]).find? "x" = some .undefined ∧
      (crowded.callScope [.boolean false, .boolean true]).find? "f" = some (.boolean true) ∧
      (crowded.callScope []).find? "y" = none :=
  ⟨(crowded.arguments_by_position [.boolean false]).1 ["x", "f"] "x" [] rfl (by decide),
    (crowded.arguments_by_position [.boolean false, .boolean true]).1 ["x"] "f" ["x"] rfl
      (by decide),
    (crowded.arguments_by_position []).2.1 "y" (by decide)⟩

end Sapling
