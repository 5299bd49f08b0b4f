import Sapling.Proofs.Closures
import Sapling.Proofs.Simulation

/-!
# Identities that have been given away

Functions are made with the next identity, and the next identity only grows.  So whatever an
evaluation can get at was made before, if that held of the scope and the arguments it began with:
all its functions have identities below the next one.  No function made later can be mistaken for
one of them.
-/

set_option autoImplicit false

namespace Sapling

/-- All functions in the value were made before `next`. -/
abbrev Value.Issued (next : Nat) (value : Value) : Prop :=
  value.Each fun closure => closure.id < next

abbrev Scope.Issued (next : Nat) (scope : Scope) : Prop :=
  scope.Each fun closure => closure.id < next

abbrev AllIssued (next : Nat) (values : List Value) : Prop := ∀ value ∈ values, value.Issued next

section Later
variable {next later : Nat}

theorem Value.Issued.mono (le : next ≤ later) {value : Value} (issued : value.Issued next) :
    value.Issued later :=
  Value.Each.mono (fun _ known => Nat.lt_of_lt_of_le known le) issued

theorem Scope.Issued.mono (le : next ≤ later) {scope : Scope} (issued : scope.Issued next) :
    scope.Issued later :=
  Scope.Each.mono (fun _ known => Nat.lt_of_lt_of_le known le) issued

theorem AllIssued.mono (le : next ≤ later) {values : List Value} (issued : AllIssued next values) :
    AllIssued later values :=
  fun value member => Value.Issued.mono le (issued value member)

end Later

def Outcome.Issued (next : Nat) : Outcome → Prop
  | .ok value => value.Issued next
  | .error _ => True

/-- An evaluation that began when `next` was the next identity. -/
structure Evaluated.Issued (next : Nat) (ended : Evaluated) : Prop where
  next_le : next ≤ ended.state.nextId
  outcome : Outcome.Issued ended.state.nextId ended.outcome
  scope : ended.scope.Issued ended.state.nextId

structure Returned (next : Nat) (ended : Outcome × EvalState) : Prop where
  next_le : next ≤ ended.2.nextId
  outcome : Outcome.Issued ended.2.nextId ended.1

def InvokesIssued (invoke : Invoke) : Prop :=
  ∀ closure args span state, (Value.function closure).Issued state.nextId →
    AllIssued state.nextId args → Returned state.nextId (invoke closure args span state)

/-! ## Expressions -/

theorem Evaluated.Issued.andThen {next : Nat} {first : Evaluated}
    {f : Value → Scope → EvalState → Evaluated} (issued : first.Issued next)
    (nexts : ∀ value scope state, next ≤ state.nextId → value.Issued state.nextId →
      scope.Issued state.nextId → (f value scope state).Issued state.nextId) :
    (first.andThen f).Issued next := by
  rcases first with ⟨outcome, scope, state⟩
  obtain ⟨le, value, bindings⟩ := issued
  cases outcome with
  | error error => exact ⟨le, trivial, bindings⟩
  | ok result =>
    have after := nexts result scope state le value bindings
    exact ⟨Nat.le_trans le after.next_le, after.outcome, after.scope⟩

theorem operate_issued (symbol : String) (span : Option Span) (left right : Value) (next : Nat) :
    Outcome.Issued next (operate symbol span left right) := by
  have given := operate_operated symbol span left right
  generalize operate symbol span left right = outcome at given ⊢
  cases given with
  | number value => exact .number value
  | boolean value => exact .boolean value
  | _ => trivial

theorem bindDefined_issued {next : Nat} {value : Value} {scope : Scope} (name : String)
    (isFunction : Bool) (known : value.Issued next) (bindings : scope.Issued next) :
    (bindDefined name isFunction value scope).1.Issued next ∧
      (bindDefined name isFunction value scope).2.Issued next := by
  have bound : (if isFunction then value.named name else value).Issued next := by
    split
    · cases known with
      | @function closure here inside =>
        cases closure
        exact .function here inside
      | undefined => exact .undefined
      | number value => exact .number value
      | boolean value => exact .boolean value
    · exact known
  exact ⟨bound, Scope.Each.bind bindings name bound⟩

section Expressions
variable {invoke : Invoke}

theorem callTarget_issued (invokes : InvokesIssued invoke) (span : Option Span) (callee : Expr)
    {target : Value} {values : List Value} {scope : Scope} {state : EvalState}
    (known : target.Issued state.nextId) (given : AllIssued state.nextId values)
    (bindings : scope.Issued state.nextId) :
    (callTarget invoke span callee target values scope state).Issued state.nextId := by
  cases target with
  | function closure =>
    obtain ⟨le, outcome⟩ := invokes closure values span state known given
    exact ⟨le, outcome, Scope.Issued.mono le bindings⟩
  | undefined => exact ⟨Nat.le_refl _, trivial, bindings⟩
  | number value => exact ⟨Nat.le_refl _, trivial, bindings⟩
  | boolean value => exact ⟨Nat.le_refl _, trivial, bindings⟩

mutual

theorem evalWith_issued (invokes : InvokesIssued invoke) :
    ∀ (expr : Expr) (scope : Scope) (state : EvalState), scope.Issued state.nextId →
      (expr.evalWith invoke scope state).Issued state.nextId
  | .hole, scope, state, bindings => by
    rw [Expr.evalWith]
    exact ⟨Nat.le_refl _, trivial, bindings⟩
  | .literal _ value, scope, state, bindings => by
    rw [Expr.evalWith]
    exact ⟨Nat.le_refl _, .number value, bindings⟩
  | .read _ name, scope, state, bindings => by
    rw [Expr.evalWith]
    exact ⟨Nat.le_refl _, bindings.get name, bindings⟩
  | .function _ params body, scope, state, bindings => by
    rw [Expr.evalWith]
    -- the only place where an identity is given away
    have le : state.nextId ≤ state.nextId + 1 := Nat.le_succ _
    have captured : scope.Issued (state.nextId + 1) := Scope.Issued.mono le bindings
    exact ⟨le, .function (Nat.lt_succ_self state.nextId) captured, captured⟩
  | .define span name value, scope, state, bindings => by
    rw [Expr.evalWith_define]
    apply (evalWith_issued invokes value scope state bindings).andThen
    intro result scope state _ known bindings
    obtain ⟨bound, bindings⟩ := bindDefined_issued name value.isFunction known bindings
    exact ⟨Nat.le_refl _, bound, bindings⟩
  | .binary span symbol left right, scope, state, bindings => by
    rw [Expr.evalWith_binary]
    apply (evalWith_issued invokes left scope state bindings).andThen
    intro a scope state _ _ bindings
    apply (evalWith_issued invokes right scope state bindings).andThen
    intro b scope state _ _ bindings
    exact ⟨Nat.le_refl _, operate_issued symbol span.known? a b _, bindings⟩
  | .guarded span condition consequent, scope, state, bindings => by
    rw [Expr.evalWith_guarded]
    apply (evalWith_issued invokes condition scope state bindings).andThen
    intro test scope state _ _ bindings
    split
    · exact evalWith_issued invokes consequent scope state bindings
    · exact ⟨Nat.le_refl _, .number 1, bindings⟩
  | .call span callee args, scope, state, bindings => by
    rw [Expr.evalWith_call]
    apply (evalWith_issued invokes callee scope state bindings).andThen
    intro target scope state _ known bindings
    split
    · exact ⟨Nat.le_refl _, trivial, bindings⟩
    · apply evalArgs_issued invokes args scope state bindings
      intro values scope state le given bindings
      exact callTarget_issued invokes span.known? callee (Value.Issued.mono le known) given bindings

theorem evalArgs_issued (invokes : InvokesIssued invoke) :
    ∀ (args : List Expr) (scope : Scope) (state : EvalState)
      {f : List Value → Scope → EvalState → Evaluated}, scope.Issued state.nextId →
      (∀ values scope later, state.nextId ≤ later.nextId → AllIssued later.nextId values →
        scope.Issued later.nextId → (f values scope later).Issued later.nextId) →
      (withArgs (evalArgs invoke args scope state) f).Issued state.nextId
  | [], scope, state, f, bindings, nexts => by
    rw [evalArgs]
    exact nexts [] scope state (Nat.le_refl _) (List.forall_mem_nil _) bindings
  | arg :: rest, scope, state, f, bindings, nexts => by
    rw [withArgs_cons]
    apply (evalWith_issued invokes arg scope state bindings).andThen
    intro value scope later le known bindings
    apply evalArgs_issued invokes rest scope later bindings
    intro values scope last le' given bindings
    have all : AllIssued last.nextId (value :: values) :=
      List.forall_mem_cons.mpr ⟨Value.Issued.mono le' known, given⟩
    exact nexts (value :: values) scope last (Nat.le_trans le le') all bindings

end

/-! ## Calls -/

theorem runBody_issued (invokes : InvokesIssued invoke) {closure : Closure} {args : List Value}
    (body : List Expr) :
    ∀ (last : Value) (state : EvalState), (Value.function closure).Issued state.nextId →
      AllIssued state.nextId args → last.Issued state.nextId →
      Returned state.nextId (runBody invoke closure args body last state) := by
  induction body with
  | nil =>
    intro last state known given lastKnown
    exact ⟨Nat.le_refl _, lastKnown⟩
  | cons expr rest ih =>
    intro last state known given lastKnown
    have evaluated := evalWith_issued invokes expr (closure.callScope args) state
      (Closure.callScope_each known given)
    rw [runBody]
    generalize expr.evalWith invoke (closure.callScope args) state = ended at evaluated ⊢
    rcases ended with ⟨outcome, scope, later⟩
    obtain ⟨le, result, -⟩ := evaluated
    cases outcome with
    | error error => exact ⟨le, trivial⟩
    | ok value =>
      have others := ih value later (Value.Issued.mono le known) (AllIssued.mono le given) result
      exact ⟨Nat.le_trans le others.next_le, others.outcome⟩

theorem invokeAt_issued (settings : Settings) (remaining : Nat) :
    InvokesIssued (invokeAt settings remaining) := by
  induction remaining with
  | zero =>
    intro closure args span state known given
    rw [invokeAt]
    split <;> exact ⟨Nat.le_refl _, trivial⟩
  | succ remaining ih =>
    intro closure args span state known given
    rw [invokeAt]
    split
    · exact ⟨Nat.le_refl _, trivial⟩
    · have entered : (state.enter settings span closure.name args.length).nextId = state.nextId :=
        EvalState.enter_nextId ..
      have ran := runBody_issued ih closure.body .undefined
        (state.enter settings span closure.name args.length) (by rw [entered]; exact known)
        (by rw [entered]; exact given) .undefined
      obtain ⟨le, outcome⟩ := ran
      rw [entered] at le
      dsimp only
      refine ⟨?_, ?_⟩
      · rw [EvalState.leave_nextId]
        exact le
      · rw [EvalState.leave_nextId]
        exact outcome

end Expressions

theorem Expr.evaluate_issued (settings : Settings) (expr : Expr) {scope : Scope}
    (state : EvalState) (bindings : scope.Issued state.nextId) :
    (expr.evaluate settings scope state).Issued state.nextId := by
  rw [Expr.evaluate_eq_eval]
  exact evalWith_issued (invokeAt_issued settings _) expr scope state bindings

theorem Value.apply_issued (settings : Settings) {callee : Value} {args : List Value}
    (state : EvalState) (known : callee.Issued state.nextId)
    (given : AllIssued state.nextId args) :
    Returned state.nextId (callee.apply settings args state) := by
  rw [Value.apply_eq_call]
  cases callee with
  | function closure => exact invokeAt_issued settings _ closure args none state known given
  | undefined => exact ⟨Nat.le_refl _, trivial⟩
  | number value => exact ⟨Nat.le_refl _, trivial⟩
  | boolean value => exact ⟨Nat.le_refl _, trivial⟩

/-! ## Programs -/

theorem executeFrom_issued (settings : Settings) (statements : List Expr) (index : Nat)
    (scope : Scope) (state : EvalState) :
    scope.Issued state.nextId →
      state.nextId ≤ (executeFrom settings index statements scope state).state.nextId ∧
      (executeFrom settings index statements scope state).scope.Issued
        (executeFrom settings index statements scope state).state.nextId := by
  induction statements, index, scope, state using executeFrom_induction settings with
  | nil index scope state =>
    intro bindings
    exact ⟨Nat.le_refl _, bindings⟩
  | fails index statement rest scope state error after later evaluated =>
    intro bindings
    have first := statement.evaluate_issued settings
      (state.openStatement settings index statement) (by simpa using bindings)
    rw [evaluated, EvalState.openStatement_nextId] at first
    exact ⟨first.next_le, first.scope⟩
  | completes index statement rest scope state value after later others evaluated ih =>
    intro bindings
    have first := statement.evaluate_issued settings
      (state.openStatement settings index statement) (by simpa using bindings)
    rw [evaluated, EvalState.openStatement_nextId] at first
    have second := ih (by simpa using first.scope)
    rw [EvalState.closeStatement_nextId] at second
    exact ⟨Nat.le_trans first.next_le second.1, second.2⟩

theorem Program.execute_issued (settings : Settings) (program : Program) {scope : Scope}
    {nextId : Nat} (bindings : scope.Issued nextId) :
    nextId ≤ (program.execute settings scope nextId).state.nextId ∧
      (program.execute settings scope nextId).scope.Issued
        (program.execute settings scope nextId).state.nextId := by
  have ran := executeFrom_issued settings program.statements 0 scope
    ((EvalState.start nextId).emit settings program.span.known? .runStart)
  simp only [EvalState.emit_nextId] at ran
  simp only [Program.execute, EvalState.emit_nextId]
  exact ran bindings

end Sapling
