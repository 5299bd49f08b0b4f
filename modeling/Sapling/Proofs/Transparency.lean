import Sapling.Host
import Sapling.Proofs.Identities
import Sapling.Proofs.Issued
import Sapling.Proofs.Unread

/-!
# Calls are transparent

A host may do whatever it likes between two calls of one function with the same arguments: bind
names anew in the scope the function was made in or in the scope it captured, evaluate, call,
execute and run, with success or without.  Both calls have the same outcome.  They can differ only
in the identities of functions that the calls make.

Three facts carry this.  A register keeps its value as long as nothing else is stored in it
(`Host.run_value`).  All functions that a host has got at were made before (`Host.run_sound`), so
the functions that a call makes are none of them.  And a call depends on what was done before only
through the calls that are open and the next identity (`Value.apply_elsewhere`).
-/

set_option autoImplicit false

namespace Sapling

def HostStep.target? : HostStep → Option String
  | .get _ _ target | .eval _ _ _ target | .call _ _ _ target => target
  | _ => none

/-- The steps leave the value alone: nothing is stored in its register. -/
def HostValue.KeptBy (steps : List HostStep) : HostValue → Prop
  | .stored name => ∀ step ∈ steps, step.target? ≠ some name
  | _ => True

namespace Host

/-! ## Registers -/

section Registers
variable {α : Type} {items : List (String × α)} {name : String} {item : α}

theorem lookup_put (other : String) :
    (put items name item).lookup other =
      if other = name then some item else items.lookup other := by
  unfold put
  rw [List.lookup_cons]
  by_cases same : other = name
  · simp [same]
  · have differs : (other == name) = false := by simpa using same
    rw [differs, if_neg same]
    -- what is filtered out is under `name`, which is not asked for
    induction items with
    | nil => rfl
    | cons entry rest ih =>
      obtain ⟨key, old⟩ := entry
      by_cases replaced : key = name
      · have apart : (other == key) = false := by simpa [replaced] using same
        rw [List.filter_cons_of_neg (by simpa using replaced), List.lookup_cons, apart]
        exact ih
      · rw [List.filter_cons_of_pos (by simpa using replaced), List.lookup_cons, List.lookup_cons]
        cases other == key with
        | true => rfl
        | false => exact ih

theorem mem_put {entry : String × α} (member : entry ∈ put items name item) :
    entry = (name, item) ∨ entry ∈ items := by
  rcases List.mem_cons.mp member with same | kept
  · exact .inl same
  · exact .inr (List.mem_filter.mp kept).1

theorem mem_of_lookup (found : items.lookup name = some item) : (name, item) ∈ items := by
  induction items with
  | nil => cases found
  | cons entry rest ih =>
    obtain ⟨key, old⟩ := entry
    rw [List.lookup_cons] at found
    split at found
    · rename_i same
      cases found
      have key : name = key := by simpa using same
      exact key ▸ List.mem_cons_self
    · exact List.mem_cons_of_mem _ (ih found)

end Registers

theorem store_value (host : Host) {target : Option String} {name : String} (outcome : Outcome)
    (apart : target ≠ some name) :
    (host.store target outcome).value (.stored name) = host.value (.stored name) := by
  cases outcome with
  | error error => rfl
  | ok value =>
    cases target with
    | none => rfl
    | some other =>
      have differs : name ≠ other := fun same => apart (congrArg some same.symm)
      simp only [store, Host.value, lookup_put, if_neg differs]

theorem step_value [Yaml.Library] (host : Host) {step : HostStep} {name : String}
    (apart : step.target? ≠ some name) :
    (host.step step).1.value (.stored name) = host.value (.stored name) := by
  cases step with
  | get scope word target =>
    have stored : target ≠ some name := apart
    unfold step
    exact store_value host _ stored
  | eval evaluator scope expr target =>
    have stored : target ≠ some name := apart
    unfold step
    exact store_value _ _ stored
  | call evaluator callee args target =>
    have stored : target ≠ some name := apart
    unfold step
    exact store_value _ _ stored
  | captured value target =>
    unfold step
    dsimp only
    split <;> rfl
  | run scope file bytes maxDepth =>
    unfold step
    dsimp only
    split <;> rfl
  | _ => rfl

theorem run_value [Yaml.Library] (host : Host) {steps : List HostStep} {value : HostValue}
    (kept : value.KeptBy steps) : (host.run steps).1.value value = host.value value := by
  cases value with
  | stored name =>
    induction steps generalizing host with
    | nil => rfl
    | cons step rest ih =>
      obtain ⟨here, others⟩ := List.forall_mem_cons.mp kept
      exact (ih (host.step step).1 others).trans (host.step_value here)
  | undefined => rfl
  | number value => rfl
  | boolean value => rfl

/-! ## Identities -/

/-- All functions that the host can get at were made before. -/
structure Sound (host : Host) : Prop where
  scopes : ∀ entry ∈ host.scopes, entry.2.Issued host.nextId
  values : ∀ entry ∈ host.values, entry.2.Issued host.nextId

theorem empty_sound : empty.Sound := by
  constructor
  · intro entry member
    cases member
  · intro entry member
    cases member

namespace Sound

variable {host : Host} (sound : host.Sound)
include sound

theorem scope (name : String) : (host.scope name).Issued host.nextId := by
  unfold Host.scope
  cases found : host.scopes.lookup name with
  | none => exact Scope.empty_each
  | some scope => exact sound.scopes _ (mem_of_lookup found)

theorem value (value : HostValue) : (host.value value).Issued host.nextId := by
  cases value with
  | undefined => exact .undefined
  | number value => exact .number value
  | boolean value => exact .boolean value
  | stored name =>
    unfold Host.value
    dsimp only
    cases found : host.values.lookup name with
    | none => exact .undefined
    | some value => exact sound.values _ (mem_of_lookup found)

theorem args (args : List HostValue) : AllIssued host.nextId (args.map host.value) := by
  intro value member
  obtain ⟨arg, -, rfl⟩ := List.mem_map.mp member
  exact sound.value arg

theorem putScope (name : String) {scope : Scope} (bindings : scope.Issued host.nextId) :
    (host.putScope name scope).Sound := by
  refine ⟨?_, sound.values⟩
  intro entry member
  rcases mem_put member with rfl | old
  · exact bindings
  · exact sound.scopes entry old

theorem store (target : Option String) {outcome : Outcome}
    (known : Outcome.Issued host.nextId outcome) : (host.store target outcome).Sound := by
  cases outcome with
  | error error => exact sound
  | ok value =>
    cases target with
    | none => exact sound
    | some name =>
      refine ⟨sound.scopes, ?_⟩
      intro entry member
      rcases mem_put member with rfl | old
      · exact known
      · exact sound.values entry old

theorem later {nextId : Nat} (le : host.nextId ≤ nextId) : { host with nextId }.Sound := by
  constructor
  · intro entry member
    exact Scope.Issued.mono le (sound.scopes entry member)
  · intro entry member
    exact Value.Issued.mono le (sound.values entry member)

theorem leave (name : String) (evaluator : Evaluator) {state : EvalState}
    (le : host.nextId ≤ state.nextId) : (host.leave name evaluator state).Sound := by
  obtain ⟨scopes, values⟩ := sound.later le
  exact ⟨scopes, values⟩

theorem afterExecution (name : String) {execution : Execution}
    (le : host.nextId ≤ execution.state.nextId)
    (bindings : execution.scope.Issued execution.state.nextId) :
    (host.afterExecution name execution).Sound := by
  obtain ⟨scopes, values⟩ := (sound.later le).putScope name bindings
  exact ⟨scopes, values⟩

end Sound

theorem store_nextId (host : Host) (target : Option String) (outcome : Outcome) :
    (host.store target outcome).nextId = host.nextId := by
  cases outcome with
  | error error => rfl
  | ok value => cases target <;> rfl

theorem store_evaluators (host : Host) (target : Option String) (outcome : Outcome) :
    (host.store target outcome).evaluators = host.evaluators := by
  cases outcome with
  | error error => rfl
  | ok value => cases target <;> rfl

theorem step_sound [Yaml.Library] {host : Host} (sound : host.Sound) (step : HostStep) :
    (host.step step).1.Sound ∧ host.nextId ≤ (host.step step).1.nextId := by
  cases step with
  | bind name word value =>
    have bound : ((host.scope name).bind word (host.value value)).Issued host.nextId :=
      (sound.scope name).bind word (sound.value value)
    exact ⟨sound.putScope name bound, Nat.le_refl _⟩
  | get name word target =>
    unfold Host.step
    dsimp only
    rw [store_nextId]
    exact ⟨sound.store target ((sound.scope name).get word), Nat.le_refl _⟩
  | clone name target => exact ⟨sound.putScope target (sound.scope name), Nat.le_refl _⟩
  | captured value target =>
    have known := sound.value value
    unfold Host.step
    dsimp only
    split
    · rename_i closure found
      rw [found] at known
      exact ⟨sound.putScope target (Closure.captured_each known), Nat.le_refl _⟩
    · exact ⟨sound, Nat.le_refl _⟩
  | evaluator name evaluator => exact ⟨⟨sound.scopes, sound.values⟩, Nat.le_refl _⟩
  | eval name scope expr target =>
    obtain ⟨le, outcome, bindings⟩ := expr.evaluate_issued (host.evaluator name).settings
      (host.enter (host.evaluator name)) (sound.scope scope)
    unfold Host.step
    dsimp only
    rw [store_nextId]
    have left := (sound.leave name (host.evaluator name) le).putScope scope bindings
    exact ⟨left.store target outcome, le⟩
  | call name callee args target =>
    obtain ⟨le, outcome⟩ := Value.apply_issued (host.evaluator name).settings
      (host.enter (host.evaluator name)) (sound.value callee) (sound.args args)
    unfold Host.step
    dsimp only
    rw [store_nextId]
    exact ⟨(sound.leave name (host.evaluator name) le).store target outcome, le⟩
  | execute name program maxDepth =>
    obtain ⟨le, bindings⟩ := program.execute_issued (quiet maxDepth) (sound.scope name)
    exact ⟨sound.afterExecution name le bindings, le⟩
  | run name file bytes maxDepth =>
    unfold Host.step runDocument
    dsimp only
    cases readProgram file bytes with
    | error diagnostics => exact ⟨sound, Nat.le_refl _⟩
    | ok program =>
      obtain ⟨le, bindings⟩ := program.execute_issued (quiet maxDepth) (sound.scope name)
      exact ⟨sound.afterExecution name le bindings, le⟩
  | events => exact ⟨⟨sound.scopes, sound.values⟩, Nat.le_refl _⟩
  | _ => exact ⟨sound, Nat.le_refl _⟩

theorem run_sound [Yaml.Library] (steps : List HostStep) :
    ∀ {host : Host}, host.Sound →
      (host.run steps).1.Sound ∧ host.nextId ≤ (host.run steps).1.nextId := by
  induction steps with
  | nil =>
    intro host sound
    exact ⟨sound, Nat.le_refl _⟩
  | cons step rest ih =>
    intro host sound
    obtain ⟨here, le⟩ := step_sound sound step
    obtain ⟨there, le'⟩ := ih here
    exact ⟨there, Nat.le_trans le le'⟩

end Host

/-! ## The same call elsewhere -/

theorem countFrom_injective {old new : Nat} (le : old ≤ new) :
    Function.Injective (countFrom old new) := by
  intro a b same
  unfold countFrom at same
  split at same <;> split at same <;> omega

theorem Value.Issued.countFrom_eq {value : Value} {old : Nat} (known : value.Issued old)
    (new : Nat) : value.rename (countFrom old new) = value :=
  Value.rename_eq_self (Value.Each.mono (fun _ issued => countFrom_of_lt issued) known)

/-- A call depends on what was done before only through the calls that are open and the next
identity. -/
theorem Value.apply_elsewhere {first second : Settings} (limit : first.limit = second.limit)
    {callee : Value} {args : List Value} {a b : EvalState}
    (depth : a.tracker.depth = b.tracker.depth) (known : callee.Issued a.nextId)
    (given : AllIssued a.nextId args) :
    (callee.apply second args b).1 =
        (callee.apply first args a).1.map (Value.rename (countFrom a.nextId b.nextId)) ∧
      ∃ calls, (callee.apply first args a).2.tracker.calls = a.tracker.calls + calls ∧
        (callee.apply second args b).2.tracker.calls = b.tracker.calls + calls := by
  let sim := Simulation.elsewhere limit ⟨a.tracker, a.nextId⟩ ⟨b.tracker, b.nextId⟩
  have states : sim.state a b :=
    ⟨.idle a.tracker.depth, 0, (Tracker.idle_onto rfl).symm,
      (Tracker.idle_onto depth.symm).symm, rfl, rfl⟩
  have itself {value : Value} (issued : value.Issued a.nextId) : sim.value value value :=
    Value.lift_rename_iff.mpr (issued.countFrom_eq b.nextId).symm
  have arguments : List.Forall₂ sim.value args args :=
    List.forall₂_same.mpr fun value member => itself (given value member)
  obtain ⟨outcomes, work, made, here, there, -, -⟩ :=
    sim.apply_keeps (itself known) arguments states
  refine ⟨outcomes.eq_map_rename, work.calls, ?_, ?_⟩
  · rw [here]
    rfl
  · rw [there]
    rfl

theorem Value.looksLike_rename (move : Nat → Nat) (value : Value) :
    value.LooksLike (value.rename move) := by
  cases value with
  | function closure =>
    cases closure
    exact ⟨rfl, rfl, rfl⟩
  | _ => exact ⟨rfl, rfl, rfl⟩

theorem Outcomes.map_rename (move : Nat → Nat) (outcome : Outcome) :
    Outcomes Value.LooksLike outcome (outcome.map (Value.rename move)) := by
  cases outcome with
  | ok value => exact .ok (value.looksLike_rename move)
  | error error => exact .error error

namespace Host

theorem call_reply [Yaml.Library] (host : Host) (name : String) (callee : HostValue)
    (args : List HostValue) (target : Option String) :
    (host.step (.call name callee args target)).2 =
      .outcome ((host.value callee).apply (host.evaluator name).settings (args.map host.value)
        (host.enter (host.evaluator name))).1 := rfl

theorem call_tracker [Yaml.Library] (host : Host) (name : String) (callee : HostValue)
    (args : List HostValue) (target : Option String) :
    ((host.step (.call name callee args target)).1.evaluator name).tracker =
      ((host.value callee).apply (host.evaluator name).settings (args.map host.value)
        (host.enter (host.evaluator name))).2.tracker := by
  unfold Host.step evaluator
  dsimp only
  rw [store_evaluators]
  unfold leave
  dsimp only
  rw [lookup_put, if_pos rfl]
  rfl

theorem eval_function [Yaml.Library] (host : Host) (evaluator scope : String) (span place : Span)
    (name : String) (params : List String) (body : List Expr) (register : String) :
    (host.step (.eval evaluator scope (.define span name (.function place params body))
      (some register))).1.value (.stored register) =
        .function (.mk host.nextId name params body (host.scope scope)) := by
  unfold Host.step
  dsimp only
  rw [Expr.evaluate_eq_eval, Expr.eval, Expr.evalWith_define, Expr.evalWith]
  simp only [Evaluated.andThen, makeClosure, bindDefined, Expr.isFunction, if_true, store,
    Host.value, lookup_put]
  rfl

/-- Calls of one function with the same arguments, with any steps between them that leave these
where they are, have the same outcome.  The evaluators may be different ones, but have to allow the
same calls and have as many open.  Errors are equal, and so are values up to the identities of the
functions that the calls make; the calls add the same number to the statistics.

A function that a definition has named goes on calling itself under that name, whatever the name is
bound to since. -/
theorem calls_transparent [Yaml.Library] (history between : List HostStep) :
    let host := (empty.run history).1
    (∀ (first second : String) (callee : HostValue) (args : List HostValue)
        (target other : Option String),
      let called := host.step (.call first callee args target)
      let later := (called.1.run between).1
      let repeated := later.step (.call second callee args other)
      (∀ value ∈ callee :: args, value.KeptBy (.call first callee args target :: between)) →
      (host.evaluator first).settings.limit = (later.evaluator second).settings.limit →
      (host.evaluator first).tracker.depth = (later.evaluator second).tracker.depth →
      ∃ before after : Outcome, called.2 = .outcome before ∧ repeated.2 = .outcome after ∧
        Outcomes Value.LooksLike before after ∧
        (∃ move : Nat → Nat, Function.Injective move ∧ (∀ id < host.nextId, move id = id) ∧
          after = before.map (Value.rename move)) ∧
        ∃ calls : Nat,
          (called.1.evaluator first).tracker.calls =
              (host.evaluator first).tracker.calls + calls ∧
            (repeated.1.evaluator second).tracker.calls =
              (later.evaluator second).tracker.calls + calls) ∧
    ∀ (evaluator scope : String) (span place : Span) (name : String) (params : List String)
        (body : List Expr) (register : String),
      let defined := (host.step (.eval evaluator scope
        (.define span name (.function place params body)) (some register))).1
      name ≠ "" → name ∉ params → (HostValue.stored register).KeptBy between →
      ∃ closure : Closure,
        (defined.run between).1.value (.stored register) = .function closure ∧
          closure.name = name ∧ closure.params = params ∧ closure.body = body ∧
          ∀ args, (closure.callScope args).get name = .function closure := by
  intro host
  have sound : host.Sound := (run_sound history empty_sound).1
  constructor
  · intro first second callee args target other called later repeated kept limit depth
    -- the first call is one of the steps that leave the function and its arguments alone
    have le : host.nextId ≤ later.nextId :=
      (run_sound (.call first callee args target :: between) sound).2
    have same : later.value callee = host.value callee :=
      host.run_value (kept callee List.mem_cons_self)
    have given : args.map later.value = args.map host.value :=
      List.map_congr_left fun arg member =>
        host.run_value (kept arg (List.mem_cons_of_mem _ member))
    obtain ⟨outcomes, calls, before, after⟩ := Value.apply_elsewhere limit
      (a := host.enter (host.evaluator first)) (b := later.enter (later.evaluator second))
      depth (sound.value callee) (sound.args args)
    refine ⟨_, _, host.call_reply .., later.call_reply .., ?_, ?_, calls, ?_, ?_⟩
    · rw [same, given, outcomes]
      exact Outcomes.map_rename _ _
    · refine ⟨countFrom host.nextId later.nextId, countFrom_injective le,
        fun id known => countFrom_of_lt known, ?_⟩
      rw [same, given]
      exact outcomes
    · rw [host.call_tracker]
      exact before
    · rw [later.call_tracker, same, given]
      exact after
  · intro evaluator scope span place name params body register defined named visible kept
    let closure : Closure := .mk host.nextId name params body (host.scope scope)
    refine ⟨closure, ?_, rfl, rfl, rfl, closure.get_callScope_self named visible⟩
    rw [run_value _ kept]
    exact host.eval_function ..

theorem step_evaluator [Yaml.Library] (host : Host) (name : String) (evaluator : Evaluator) :
    (host.step (.evaluator name evaluator)).1.evaluator name = evaluator := by
  unfold Host.step Host.evaluator
  dsimp only
  rw [lookup_put, if_pos rfl]
  rfl

def definesSelf : List HostStep :=
  [.eval "e" "s" (.define Span.zero "f" (.function Span.zero [] [.read Span.zero "f"])) (some "f"),
    .evaluator "a" (.new 0 false "")]

def bindsAnew : List HostStep :=
  [.bind "s" "f" (.number 0), .captured (.stored "f") "inside", .bind "inside" "f" .undefined,
    .eval "e" "inside" .hole none, .evaluator "b" (.new 0 true "")]

/-- Both calls return the function itself, as it was defined. -/
theorem calls_transparent_bindsAnew :
    let itself : Value := .function (.mk 0 "f" [] [.read Span.zero "f"] Scope.empty)
    let host := (empty.run definesSelf).1
    let called := host.step (.call "a" (.stored "f") [.number 1] none)
    let later := (called.1.run bindsAnew).1
    let repeated := later.step (.call "b" (.stored "f") [.number 1] none)
    (∀ value ∈ [HostValue.stored "f", .number 1],
      value.KeptBy (.call "a" (.stored "f") [.number 1] none :: bindsAnew)) ∧
    (host.evaluator "a").settings.limit = (later.evaluator "b").settings.limit ∧
    (host.evaluator "a").tracker.depth = (later.evaluator "b").tracker.depth ∧
    called.2 = .outcome (.ok itself) ∧ repeated.2 = .outcome (.ok itself) := by
  intro itself host called later repeated
  have first : host.evaluator "a" = .new 0 false "" := step_evaluator ..
  have second : later.evaluator "b" = .new 0 true "" := step_evaluator ..
  have kept : ∀ value ∈ [HostValue.stored "f", .number 1],
      value.KeptBy (.call "a" (.stored "f") [.number 1] none :: bindsAnew) := by
    simp [HostValue.KeptBy, bindsAnew, HostStep.target?]
  have limit : (host.evaluator "a").settings.limit = (later.evaluator "b").settings.limit := by
    rw [first, second]
    rfl
  have depth : (host.evaluator "a").tracker.depth = (later.evaluator "b").tracker.depth := by
    rw [first, second]
    rfl
  have stored : host.value (.stored "f") = itself := eval_function ..
  have known : host.nextId = 1 := by
    simp only [host, definesSelf, run, step, Expr.evaluate_eq_eval]
    rfl
  have returned : called.2 = .outcome (.ok itself) := by
    simp only [called, call_reply, stored, first, Value.apply_eq_call]
    rfl
  obtain ⟨before, after, reply, reply', -, ⟨move, -, fixed, moved⟩, -⟩ :=
    (calls_transparent definesSelf bindsAnew).1 "a" "b" (.stored "f") [.number 1] none none kept
      limit depth
  refine ⟨kept, limit, depth, returned, reply'.trans ?_⟩
  cases reply.symm.trans returned
  have unmoved : move 0 = 0 := fixed 0 (by rw [known]; decide)
  rw [moved]
  simp only [Except.map, itself, Value.rename, Closure.rename, unmoved]
  rfl

end Host
end Sapling
