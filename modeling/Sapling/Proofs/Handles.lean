import Sapling.Proofs.NameMaps
import Sapling.Proofs.Writes

/-!
# Scopes of a host as finite maps

A host binds names through handles, and makes handles from one another and from functions.  What is
found through a handle depends on its own history only: on the scope it was made from, as that was
then, and on what was bound through it since (`History`, `Host.run_scope`).

The bindings that an evaluation makes in its scope are those of the definitions it comes to, in that
order (`Expr.bindings`), and the scope that it leaves is the one before with these bindings made
(`Expr.evaluate_scope`).  All this holds whatever persistent map the handles are kept in, if handles
that are made from one another share their maps (`Host.handles`).
-/

set_option autoImplicit false

namespace Sapling

/-! ## Bindings of an evaluation -/

def Evaluated.thenBindings (first : Evaluated)
    (next : Value → Scope → EvalState → List (String × Value)) : List (String × Value) :=
  match first with
  | ⟨.error _, _, _⟩ => []
  | ⟨.ok value, scope, state⟩ => next value scope state

mutual

/-- The bindings that an evaluation makes in its scope, first one first. -/
def Expr.bindingsWith (invoke : Invoke) : Expr → Scope → EvalState → List (String × Value)
  | .hole, _, _ | .literal .., _, _ | .read .., _, _ | .function .., _, _ => []
  | .define _ name value, scope, state =>
    value.bindingsWith invoke scope state ++
      (value.evalWith invoke scope state).thenBindings fun result scope _ =>
        [(name, (bindDefined name value.isFunction result scope).1)]
  | .binary _ _ left right, scope, state =>
    left.bindingsWith invoke scope state ++
      (left.evalWith invoke scope state).thenBindings fun _ scope state =>
        right.bindingsWith invoke scope state
  | .guarded _ condition consequent, scope, state =>
    condition.bindingsWith invoke scope state ++
      (condition.evalWith invoke scope state).thenBindings fun test scope state =>
        if test.isTrue then consequent.bindingsWith invoke scope state else []
  | .call _ callee args, scope, state =>
    callee.bindingsWith invoke scope state ++
      (callee.evalWith invoke scope state).thenBindings fun target scope state =>
        match calleeError? target with
        | some _ => []
        | none => argsBindings invoke args scope state

def argsBindings (invoke : Invoke) : List Expr → Scope → EvalState → List (String × Value)
  | [], _, _ => []
  | arg :: rest, scope, state =>
    arg.bindingsWith invoke scope state ++
      (arg.evalWith invoke scope state).thenBindings fun _ scope state =>
        argsBindings invoke rest scope state

end

def Expr.bindings (settings : Settings) (expr : Expr) (scope : Scope) (state : EvalState) :
    List (String × Value) :=
  expr.bindingsWith (invokeAt settings (state.remaining settings)) scope state

def bindingsFrom (settings : Settings) :
    Nat → List Expr → Scope → EvalState → List (String × Value)
  | _, [], _, _ => []
  | index, statement :: rest, scope, state =>
    let opened := state.openStatement settings index statement
    statement.bindings settings scope opened ++
      (statement.evaluate settings scope opened).thenBindings fun _ scope state =>
        bindingsFrom settings (index + 1) rest scope (state.closeStatement settings index statement)

def Program.bindings (settings : Settings) (program : Program) (scope : Scope) (nextId : Nat) :
    List (String × Value) :=
  bindingsFrom settings 0 program.statements scope
    ((EvalState.start nextId).emit settings program.span.known? .runStart)

section Made
variable {invoke : Invoke}

theorem Evaluated.andThen_scope {first : Evaluated} {scope : Scope}
    {made : List (String × Value)} (firstScope : first.scope = scope.bindEach made)
    {next : Value → Scope → EvalState → Evaluated}
    {more : Value → Scope → EvalState → List (String × Value)}
    (nextScope : ∀ value scope state,
      (next value scope state).scope = Scope.bindEach scope (more value scope state)) :
    (first.andThen next).scope = scope.bindEach (made ++ first.thenBindings more) := by
  obtain ⟨outcome, left, state⟩ := first
  obtain rfl : left = scope.bindEach made := firstScope
  rw [Scope.bindEach_append]
  cases outcome with
  | error error => rfl
  | ok value => exact nextScope value _ state

theorem evalArgs_scope {args : List Expr}
    (each : ∀ arg ∈ args, ∀ scope state, (arg.evalWith invoke scope state).scope =
      scope.bindEach (arg.bindingsWith invoke scope state))
    {next : List Value → Scope → EvalState → Evaluated} :
    ∀ scope state, (∀ values scope state, (next values scope state).scope = scope) →
      (withArgs (evalArgs invoke args scope state) next).scope =
        scope.bindEach (argsBindings invoke args scope state) := by
  induction args generalizing next with
  | nil =>
    intro scope state nextScope
    rw [evalArgs, argsBindings]
    exact nextScope [] scope state
  | cons arg rest ih =>
    intro scope state nextScope
    obtain ⟨first, others⟩ := List.forall_mem_cons.mp each
    rw [withArgs_cons, argsBindings]
    apply Evaluated.andThen_scope (first scope state)
    intro value scope state
    exact ih others scope state fun values => nextScope (value :: values)

theorem Expr.evalWith_scope (expr : Expr) : ∀ scope state,
    (expr.evalWith invoke scope state).scope =
      scope.bindEach (expr.bindingsWith invoke scope state) := by
  induction expr using children_induction with
  | node expr ih =>
    intro scope state
    cases expr with
    | hole =>
      rw [evalWith, bindingsWith]
      rfl
    | literal span value =>
      rw [evalWith, bindingsWith]
      rfl
    | read span name =>
      rw [evalWith, bindingsWith]
      rfl
    | function span params body =>
      rw [evalWith, bindingsWith]
      rfl
    | define span name value =>
      rw [evalWith_define, bindingsWith]
      apply Evaluated.andThen_scope (ih value (by simp [children]) scope state)
      exact fun result scope state => rfl
    | binary span symbol left right =>
      rw [evalWith_binary, bindingsWith]
      apply Evaluated.andThen_scope (ih left (by simp [children]) scope state)
      intro a scope state
      have second := ih right (by simp [children]) scope state
      generalize right.evalWith invoke scope state = ended at second ⊢
      obtain ⟨outcome, left, after⟩ := ended
      cases outcome <;> exact second
    | guarded span condition consequent =>
      rw [evalWith_guarded, bindingsWith]
      apply Evaluated.andThen_scope (ih condition (by simp [children]) scope state)
      intro test scope state
      split
      · exact ih consequent (by simp [children]) scope state
      · rfl
    | call span callee args =>
      rw [evalWith_call, bindingsWith]
      apply Evaluated.andThen_scope (ih callee (by simp [children]) scope state)
      intro target scope state
      cases calleeError? target with
      | some failure => rfl
      | none =>
        apply evalArgs_scope (fun arg isIn => ih arg (by simp [children, isIn]))
        exact fun values scope state => callTarget_scope invoke _ callee target values scope state

end Made

theorem Expr.evaluate_scope (settings : Settings) (expr : Expr) (scope : Scope)
    (state : EvalState) :
    (expr.evaluate settings scope state).scope =
      scope.bindEach (expr.bindings settings scope state) := by
  rw [evaluate_eq_eval, eval]
  exact expr.evalWith_scope scope state

theorem executeFrom_scope (settings : Settings) (statements : List Expr) :
    ∀ index scope state, (executeFrom settings index statements scope state).scope =
      scope.bindEach (bindingsFrom settings index statements scope state) := by
  induction statements with
  | nil => exact fun index scope state => rfl
  | cons statement rest ih =>
    intro index scope state
    have first := statement.evaluate_scope settings scope
      (state.openStatement settings index statement)
    rw [executeFrom, bindingsFrom]
    dsimp only
    rw [Scope.bindEach_append, ← first]
    generalize statement.evaluate settings scope (state.openStatement settings index statement) =
      ended
    obtain ⟨outcome, after, later⟩ := ended
    cases outcome with
    | error error => rfl
    | ok value => exact ih (index + 1) after _

theorem Program.execute_scope (settings : Settings) (program : Program) (scope : Scope)
    (nextId : Nat) :
    (program.execute settings scope nextId).scope =
      scope.bindEach (program.bindings settings scope nextId) :=
  executeFrom_scope settings program.statements 0 scope _

/-! ## Histories of handles -/

/-- What a handle was made from, and what has been bound through it since, first one first. -/
structure History where
  origin : Scope
  since : List (String × Value)

def History.find? (history : History) (name : String) : Option Value :=
  (history.since.reverse.lookup name).or (history.origin.find? name)

namespace HostStep

/-- The scope that a step makes a handle from, if it makes the handle anew. -/
def origin? (host : Host) (handle : String) : HostStep → Option Scope
  | .clone source target => if target = handle then some (host.scope source) else none
  | .captured value target =>
    match host.value value with
    | .function closure => if target = handle then some closure.captured else none
    | _ => none
  | _ => none

def bindings [Yaml.Library] (host : Host) (handle : String) : HostStep → List (String × Value)
  | .bind scope name value => if scope = handle then [(name, host.value value)] else []
  | .eval worker scope expr _ =>
    if scope = handle then
      expr.bindings (host.evaluator worker).settings (host.scope scope)
        (host.enter (host.evaluator worker))
    else []
  | .execute scope program maxDepth =>
    if scope = handle then
      program.bindings (Host.quiet maxDepth) (host.scope scope) host.nextId
    else []
  | .run scope file bytes maxDepth =>
    match readProgram file bytes with
    | .ok program =>
      if scope = handle then
        program.bindings (Host.quiet maxDepth) (host.scope scope) host.nextId
      else []
    | .error _ => []
  | _ => []

def recount [Yaml.Library] (host : Host) (handle : String) (step : HostStep)
    (history : History) : History :=
  match step.origin? host handle with
  | some origin => ⟨origin, step.bindings host handle⟩
  | none => ⟨history.origin, history.since ++ step.bindings host handle⟩

end HostStep

namespace Host

theorem scope_putScope (host : Host) (name : String) (scope : Scope) (handle : String) :
    (host.putScope name scope).scope handle =
      if handle = name then scope else host.scope handle := by
  rw [Host.scope, putScope, lookup_put]
  split <;> rfl

theorem scope_putScope_origin (host : Host) (target : String) (origin : Scope) (handle : String) :
    (host.putScope target origin).scope handle =
      (if target = handle then some origin else none).getD (host.scope handle) := by
  rw [scope_putScope]
  by_cases same : target = handle
  · rw [if_pos same, if_pos same.symm]
    rfl
  · rw [if_neg same, if_neg (Ne.symm same)]
    rfl

theorem scope_putScope_bindEach (host : Host) {name : String} {scope : Scope}
    {made : List (String × Value)} (bound : scope = (host.scope name).bindEach made)
    (handle : String) :
    (host.putScope name scope).scope handle =
      (host.scope handle).bindEach (if name = handle then made else []) := by
  rw [scope_putScope, bound]
  by_cases same : handle = name
  · rw [if_pos same, if_pos same.symm, same]
  · rw [if_neg same, if_neg (Ne.symm same)]
    rfl

/-- What a step does to the scope of a handle. -/
theorem step_scope [Yaml.Library] (host : Host) (step : HostStep) (handle : String) :
    (host.step step).1.scope handle =
      ((step.origin? host handle).getD (host.scope handle)).bindEach
        (step.bindings host handle) := by
  cases step with
  | bind name word value =>
    have bound : (host.scope name).bind word (host.value value) =
        (host.scope name).bindEach [(word, host.value value)] := rfl
    exact host.scope_putScope_bindEach bound handle
  | clone source target => exact host.scope_putScope_origin target (host.scope source) handle
  | captured value target =>
    unfold Host.step HostStep.origin?
    dsimp only
    cases host.value value with
    | function closure => exact host.scope_putScope_origin target closure.captured handle
    | _ => rfl
  | get name word target => exact store_scope host _ _ handle
  | eval name scope expr target =>
    unfold Host.step
    dsimp only
    rw [store_scope]
    exact (host.leave name _ _).scope_putScope_bindEach (expr.evaluate_scope _ _ _) handle
  | call name callee args target => exact store_scope _ _ _ handle
  | execute name program maxDepth =>
    exact host.scope_putScope_bindEach (program.execute_scope _ _ _) handle
  | run name file bytes maxDepth =>
    unfold Host.step HostStep.bindings runDocument
    dsimp only
    cases readProgram file bytes with
    | error diagnostics => rfl
    | ok program => exact host.scope_putScope_bindEach (program.execute_scope _ _ _) handle
  | _ => rfl

def history [Yaml.Library] (host : Host) (handle : String) (past : History) :
    List HostStep → History
  | [] => past
  | step :: rest => (host.step step).1.history handle (step.recount host handle past) rest

theorem recount_find? [Yaml.Library] {host : Host} {handle : String} {past : History}
    (recalled : ∀ name, (host.scope handle).find? name = past.find? name) (step : HostStep)
    (name : String) :
    ((host.step step).1.scope handle).find? name =
      (step.recount host handle past).find? name := by
  rw [step_scope, Scope.find?_bindEach, HostStep.recount]
  cases step.origin? host handle with
  | some origin => rfl
  | none =>
    dsimp only [Option.getD_none, History.find?]
    rw [recalled, History.find?, List.reverse_append, List.lookup_append, Option.or_assoc]

theorem run_scope [Yaml.Library] (steps : List HostStep) (handle : String) :
    ∀ (host : Host) (past : History),
      (∀ name, (host.scope handle).find? name = past.find? name) → ∀ name,
      ((host.run steps).1.scope handle).find? name =
        (host.history handle past steps).find? name := by
  induction steps with
  | nil => exact fun host past recalled => recalled
  | cons step rest ih =>
    intro host past recalled
    exact ih (host.step step).1 _ fun name => recount_find? recalled step name

/-! ## Handles kept in other maps -/

section Maps
variable {M : Type} (maps : NameMap M)

def remap [Yaml.Library] (host : Host) (handles : String → M) (step : HostStep)
    (handle : String) : M :=
  match step with
  | .clone source target => if target = handle then handles source else handles handle
  | .captured value target =>
    match host.value value with
    | .function closure =>
      if target = handle then maps.ofScope closure.captured else handles handle
    | _ => handles handle
  | step => maps.insertEach (handles handle) (step.bindings host handle)

def handles [Yaml.Library] (host : Host) (before : String → M) : List HostStep → String → M
  | [] => before
  | step :: rest => (host.step step).1.handles (host.remap maps before step) rest

theorem remap_holds [Yaml.Library] {host : Host} {before : String → M}
    (holds : ∀ handle, maps.Holds (before handle) (host.scope handle)) (step : HostStep)
    (handle : String) :
    maps.Holds (host.remap maps before step handle) ((host.step step).1.scope handle) := by
  rw [step_scope]
  cases step with
  | clone source target =>
    rw [remap, HostStep.origin?]
    split
    · exact holds source
    · exact holds handle
  | captured value target =>
    unfold remap HostStep.origin?
    dsimp only
    cases host.value value with
    | function closure =>
      dsimp only
      split
      · exact maps.ofScope_holds closure.captured
      · exact holds handle
    | _ => exact holds handle
  | _ => exact (holds handle).insertEach _

theorem run_holds [Yaml.Library] (steps : List HostStep) : ∀ (host : Host) (before : String → M),
    (∀ handle, maps.Holds (before handle) (host.scope handle)) → ∀ handle,
      maps.Holds (host.handles maps before steps handle) ((host.run steps).1.scope handle) := by
  induction steps with
  | nil => exact fun host before holds => holds
  | cons step rest ih =>
    intro host before holds
    exact ih (host.step step).1 _ fun handle => remap_holds maps holds step handle

end Maps
end Host

/-! ## Order -/

abbrev Value.Tidy (value : Value) : Prop := value.Each fun closure => closure.snapshot.Ordered

/-- The scope is in order, and so are those that its functions hold. -/
structure Scope.Tidy (scope : Scope) : Prop where
  ordered : scope.Ordered
  each : scope.Each fun closure => closure.snapshot.Ordered

theorem Scope.empty_tidy : Scope.empty.Tidy := ⟨empty_ordered, empty_each⟩

theorem Scope.Tidy.bind {scope : Scope} (tidy : scope.Tidy) (name : String) {value : Value}
    (valueTidy : value.Tidy) : (scope.bind name value).Tidy :=
  ⟨tidy.ordered.bind name value, tidy.each.bind name valueTidy⟩

theorem Closure.captured_tidy {closure : Closure} (tidy : (Value.function closure).Tidy) :
    closure.captured.Tidy := by
  refine ⟨?_, captured_each tidy⟩
  cases tidy with
  | function here inside =>
    unfold captured
    split
    · exact here
    · exact here.bind closure.name _

def Outcome.Tidy : Outcome → Prop
  | .ok value => value.Tidy
  | .error _ => True

theorem Value.lift_each_iff {good : Closure → Prop} {v w : Value} :
    Value.Lift (fun c d => c = d ∧ (Value.function c).Each good) v w ↔ v = w ∧ v.Each good := by
  constructor
  · intro values
    cases values with
    | undefined => exact ⟨rfl, .undefined⟩
    | number value => exact ⟨rfl, .number value⟩
    | boolean value => exact ⟨rfl, .boolean value⟩
    | function functions => exact ⟨congrArg Value.function functions.1, functions.2⟩
  · rintro ⟨rfl, each⟩
    cases v with
    | undefined => exact .undefined
    | number value => exact .number value
    | boolean value => exact .boolean value
    | function closure => exact .function ⟨rfl, each⟩

/-- An evaluation beside itself, for what holds of all that it meets. -/
def Simulation.tidy {first second : Settings} (same : first = second) :
    Simulation first second where
  closure c d := c = d ∧ (Value.function c).Tidy
  scope _ s t := s = t ∧ s.Tidy
  state := Eq
  limit := congrArg Settings.limit same
  depth := by
    rintro a b rfl
    rfl
  code := by
    rintro c d ⟨rfl, -⟩
    exact ⟨rfl, rfl, rfl⟩
  snapshot := by
    rintro c d ⟨rfl, tidy⟩
    cases tidy with
    | function here inside => exact ⟨rfl, here, inside⟩
  named := by
    rintro ⟨id, name, params, body, captured⟩ d other ⟨rfl, tidy⟩
    cases tidy with
    | function here inside => exact ⟨rfl, .function here inside⟩
  get := by
    rintro names s t name ⟨rfl, tidy⟩ -
    exact Value.lift_each_iff.mpr ⟨rfl, tidy.each.get name⟩
  bind := by
    rintro names s t name v w ⟨rfl, tidy⟩ values
    obtain ⟨rfl, valueTidy⟩ := Value.lift_each_iff.mp values
    exact ⟨rfl, tidy.bind name valueTidy⟩
  make := by
    rintro names s t a b params body - ⟨rfl, tidy⟩ rfl
    exact ⟨rfl, .function tidy.ordered tidy.each⟩
  fresh := by
    rintro a b rfl
    rfl
  enter := by
    rintro a b span name args rfl
    rw [same]
  leave := by
    rintro a b span name error rfl
    rw [same]

theorem Outcomes.tidy {first second : Settings} {same : first = second} {x y : Outcome}
    (outcomes : Outcomes (Simulation.tidy same).value x y) : Outcome.Tidy x := by
  cases outcomes with
  | ok results => exact (Value.lift_each_iff.mp results).2
  | error error => trivial

theorem Expr.evaluate_tidy (settings : Settings) (expr : Expr) {scope : Scope} (tidy : scope.Tidy)
    (state : EvalState) :
    Outcome.Tidy (expr.evaluate settings scope state).outcome ∧
      (expr.evaluate settings scope state).scope.Tidy := by
  let sim := Simulation.tidy (rfl : settings = settings)
  have kept := sim.evaluate_keeps expr (List.Subset.refl _) ⟨rfl, tidy⟩ (rfl : state = state)
  exact ⟨kept.outcome.tidy, kept.scope.2⟩

theorem Value.apply_tidy (settings : Settings) {callee : Value} {args : List Value}
    (tidy : callee.Tidy) (given : ∀ arg ∈ args, arg.Tidy) (state : EvalState) :
    Outcome.Tidy (callee.apply settings args state).1 := by
  let sim := Simulation.tidy (rfl : settings = settings)
  have arguments : List.Forall₂ sim.value args args :=
    List.forall₂_same.mpr fun arg member => lift_each_iff.mpr ⟨rfl, given arg member⟩
  have kept := sim.apply_keeps (lift_each_iff.mpr ⟨rfl, tidy⟩) arguments (rfl : state = state)
  exact kept.1.tidy

theorem Program.execute_tidy (settings : Settings) (program : Program) {scope : Scope}
    (tidy : scope.Tidy) (nextId : Nat) : (program.execute settings scope nextId).scope.Tidy := by
  let start := (EvalState.start nextId).emit settings program.span.known? .runStart
  let sim := Simulation.tidy (rfl : settings = settings)
  have kept := sim.executeFrom_keeps 0
    (fun index statement states => by
      obtain rfl := states
      rw [Nat.zero_add]
      rfl)
    (fun index statement states => by
      obtain rfl := states
      rw [Nat.zero_add]
      rfl)
    program.statements 0 (List.Subset.refl _) ⟨rfl, tidy⟩ (rfl : start = start)
  exact kept.scope.2

namespace Host

structure Tidy (host : Host) : Prop where
  scope : ∀ handle, (host.scope handle).Tidy
  value : ∀ name, (host.value (.stored name)).Tidy

theorem empty_tidy : empty.Tidy := ⟨fun _ => Scope.empty_tidy, fun _ => .undefined⟩

namespace Tidy

variable {host : Host} (tidy : host.Tidy)
include tidy

theorem valueOf (value : HostValue) : (host.value value).Tidy := by
  cases value with
  | undefined => exact .undefined
  | number value => exact .number value
  | boolean value => exact .boolean value
  | stored name => exact tidy.value name

theorem putScope (name : String) {scope : Scope} (scopeTidy : scope.Tidy) :
    (host.putScope name scope).Tidy := by
  refine ⟨fun handle => ?_, tidy.value⟩
  rw [scope_putScope]
  split
  · exact scopeTidy
  · exact tidy.scope handle

theorem store (target : Option String) {outcome : Outcome} (outcomeTidy : Outcome.Tidy outcome) :
    (host.store target outcome).Tidy := by
  cases outcome with
  | error error => exact tidy
  | ok value =>
    cases target with
    | none => exact tidy
    | some name =>
      refine ⟨tidy.scope, fun other => ?_⟩
      simp only [Host.store, Host.value, lookup_put]
      split
      · exact outcomeTidy
      · exact tidy.value other

theorem leave (name : String) (evaluator : Evaluator) (state : EvalState) :
    (host.leave name evaluator state).Tidy :=
  ⟨tidy.scope, tidy.value⟩

theorem afterExecution (name : String) {execution : Execution} (left : execution.scope.Tidy) :
    (host.afterExecution name execution).Tidy := by
  obtain ⟨scope, value⟩ := tidy.putScope name left
  exact ⟨scope, value⟩

theorem step [Yaml.Library] (step : HostStep) : (host.step step).1.Tidy := by
  cases step with
  | bind name word value =>
    exact tidy.putScope name ((tidy.scope name).bind word (tidy.valueOf value))
  | get name word target =>
    have found : Outcome.Tidy (.ok ((host.scope name).get word)) := (tidy.scope name).each.get word
    exact tidy.store target found
  | clone source target => exact tidy.putScope target (tidy.scope source)
  | captured value target =>
    have known := tidy.valueOf value
    unfold Host.step
    dsimp only
    cases found : host.value value with
    | function closure =>
      rw [found] at known
      exact tidy.putScope target (Closure.captured_tidy known)
    | _ => exact tidy
  | eval name scope expr target =>
    obtain ⟨outcome, left⟩ := expr.evaluate_tidy (host.evaluator name).settings (tidy.scope scope)
      (host.enter (host.evaluator name))
    exact ((tidy.leave name _ _).putScope scope left).store target outcome
  | call name callee args target =>
    have given (arg : Value) (member : arg ∈ args.map host.value) : arg.Tidy := by
      obtain ⟨value, -, rfl⟩ := List.mem_map.mp member
      exact tidy.valueOf value
    have outcome := Value.apply_tidy (host.evaluator name).settings (tidy.valueOf callee) given
      (host.enter (host.evaluator name))
    exact (tidy.leave name _ _).store target outcome
  | execute name program maxDepth =>
    exact tidy.afterExecution name (program.execute_tidy (quiet maxDepth) (tidy.scope name) _)
  | run name file bytes maxDepth =>
    unfold Host.step runDocument
    dsimp only
    cases readProgram file bytes with
    | error diagnostics => exact tidy
    | ok program =>
      exact tidy.afterExecution name (program.execute_tidy (quiet maxDepth) (tidy.scope name) _)
  | evaluator name evaluator => exact ⟨tidy.scope, tidy.value⟩
  | events => exact ⟨tidy.scope, tidy.value⟩
  | _ => exact tidy

end Tidy

theorem run_tidy [Yaml.Library] (steps : List HostStep) :
    ∀ {host : Host}, host.Tidy → (host.run steps).1.Tidy := by
  induction steps with
  | nil => exact fun tidy => tidy
  | cons step rest ih => exact fun tidy => ih (tidy.step step)

/-- Handles are finite maps, each on its own, whatever map they are kept in.  Through a handle is
found what was last bound through it since it was made, or else what it was made from held then.
Its size is the number of names bound, and its names are these, by strictly increasing bytes. -/
theorem handles_are_finite_maps [Yaml.Library] {M : Type} (maps : NameMap M) (steps : List HostStep)
    (handle : String) :
    let host := (Host.empty.run steps).1
    let map := Host.empty.handles maps (fun _ => maps.empty) steps handle
    let history := Host.empty.history handle ⟨Scope.empty, []⟩ steps
    (∀ name, maps.find? map name = history.find? name) ∧
      (∀ name, (host.step (.lookup handle name)).2 = .found (history.find? name)) ∧
      (∀ target, (host.step (.clone handle target)).2 = .size (maps.size map)) ∧
      (host.step (.names handle)).2 = .names (maps.names map) ∧
      (maps.names map).length = maps.size map ∧
      (maps.names map).Pairwise (fun name other => Text.toBytes name < Text.toBytes other) ∧
      ∀ name, name ∈ maps.names map ↔ (history.find? name).isSome := by
  intro host map history
  have recalled (name : String) : (host.scope handle).find? name = history.find? name :=
    run_scope steps handle empty ⟨Scope.empty, []⟩ (fun name => rfl) name
  have holds : maps.Holds map (host.scope handle) :=
    run_holds maps steps empty _ (fun handle => maps.empty_holds) handle
  have ordered : (host.scope handle).Ordered := ((run_tidy steps empty_tidy).scope handle).ordered
  have found (name : String) : maps.find? map name = history.find? name :=
    (holds name).trans (recalled name)
  refine ⟨found, fun name => ?_, fun target => ?_, ?_, maps.length_names map,
    maps.names_bytewise map, fun name => ?_⟩
  · exact congrArg HostReply.found (recalled name)
  · exact congrArg HostReply.size (holds.size_eq ordered).symm
  · exact congrArg HostReply.names (holds.names_eq ordered).symm
  · rw [maps.mem_names, found]

def clonesThenBinds : List HostStep :=
  [.bind "a" "x" (.boolean true), .clone "a" "b", .bind "a" "x" (.boolean false),
    .bind "b" "y" .undefined]

theorem handles_are_finite_maps_clonesThenBinds :
    let host := (Host.empty.run clonesThenBinds).1
    (host.step (.lookup "b" "x")).2 = .found (some (.boolean true)) ∧
      (host.step (.lookup "b" "y")).2 = .found (some .undefined) ∧
      (host.step (.lookup "a" "y")).2 = .found none := by
  obtain ⟨-, original, -⟩ := handles_are_finite_maps NameMap.ordered clonesThenBinds "a"
  obtain ⟨-, copy, -⟩ := handles_are_finite_maps NameMap.ordered clonesThenBinds "b"
  exact ⟨copy "x", copy "y", original "y"⟩

end Host
end Sapling
