import Sapling.Proofs.Bindings
import Sapling.Proofs.Transparency

/-!
# What evaluation writes

An expression changes its scope by definitions that stand outside the functions in it, and nothing
else does: a name once bound stays bound, and one whose binding changes is defined there
(`Scope.WrittenBy`).

The evaluator takes a scope and gives one back.  It might as well work in place.  In
`Expr.evalInPlace` scopes are cells: a definition writes to the cell that the expression is
evaluated in, and each expression of a function's body gets a cell of its own.  All of this comes to
the same outcome, leaves the same scope in the cell, and never touches another cell that was there
before (`Expr.evalInPlace_carries`), and a call touches none at all (`invokeInPlace_returns`).
-/

set_option autoImplicit false

namespace Sapling

/-- The scope afterwards can come of evaluating the expression in the scope before. -/
structure Scope.WrittenBy (expr : Expr) (before after : Scope) : Prop where
  bound (name : String) : before.has name = true → after.has name = true
  changed (name : String) : after.find? name ≠ before.find? name → name ∈ expr.defines

theorem Expr.evaluate_writtenBy (settings : Settings) (expr : Expr) (scope : Scope)
    (state : EvalState) : scope.WrittenBy expr (expr.evaluate settings scope state).scope := by
  refine expr.evaluate_keeps_scope settings ?_ state ⟨fun _ => id, fun _ differs => ?_⟩
  · intro name isDefined after value written
    refine ⟨fun other bound => ?_, fun other differs => ?_⟩
    · exact Scope.has_bind.mpr (.inr (written.bound other bound))
    · rw [Scope.find?_bind] at differs
      by_cases same : name = other
      · exact same ▸ isDefined
      · exact written.changed other (by simpa [same] using differs)
  · exact absurd rfl differs

/-! ## Evaluation in place -/

structure Shared where
  outcome : Outcome
  cells : List Scope
  state : EvalState

def Shared.andThen (first : Shared) (next : Value → List Scope → EvalState → Shared) : Shared :=
  match first with
  | ⟨.error error, cells, state⟩ => ⟨.error error, cells, state⟩
  | ⟨.ok value, cells, state⟩ => next value cells state

abbrev InvokeInPlace := Closure → List Value → Option Span → List Scope → EvalState → Shared

mutual

def Expr.evalInPlace (invoke : InvokeInPlace) (cell : Nat) :
    Expr → List Scope → EvalState → Shared
  | .hole, cells, state => ⟨.error ⟨.missingExpression, none⟩, cells, state⟩
  | .literal _ value, cells, state => ⟨.ok (.number value), cells, state⟩
  | .read _ name, cells, state => ⟨.ok ((cells.getD cell .empty).get name), cells, state⟩
  | .define _ name value, cells, state =>
    (value.evalInPlace invoke cell cells state).andThen fun result cells state =>
      let result := if value.isFunction then result.named name else result
      ⟨.ok result, cells.modify cell (·.bind name result), state⟩
  | .binary span symbol left right, cells, state =>
    (left.evalInPlace invoke cell cells state).andThen fun a cells state =>
      (right.evalInPlace invoke cell cells state).andThen fun b cells state =>
        ⟨operate symbol span.known? a b, cells, state⟩
  | .guarded _ condition consequent, cells, state =>
    (condition.evalInPlace invoke cell cells state).andThen fun test cells state =>
      if test.isTrue then consequent.evalInPlace invoke cell cells state
      else ⟨.ok (.number 1), cells, state⟩
  | .function _ params body, cells, state =>
    let (value, state) := makeClosure params body (cells.getD cell .empty) state
    ⟨.ok value, cells, state⟩
  | .call span callee args, cells, state =>
    (callee.evalInPlace invoke cell cells state).andThen fun target cells state =>
      match calleeError? target with
      | some failure => ⟨.error ⟨failure, span.known?⟩, cells, state⟩
      | none =>
        argsInPlace invoke cell args cells state fun values cells state =>
          match target with
          | .function closure => invoke closure values span.known? cells state
          | _ => ⟨.error ⟨noCallee callee, span.known?⟩, cells, state⟩

def argsInPlace (invoke : InvokeInPlace) (cell : Nat) : List Expr → List Scope → EvalState →
    (List Value → List Scope → EvalState → Shared) → Shared
  | [], cells, state, next => next [] cells state
  | arg :: rest, cells, state, next =>
    (arg.evalInPlace invoke cell cells state).andThen fun value cells state =>
      argsInPlace invoke cell rest cells state fun values => next (value :: values)

end

/-- Evaluates body expressions, each in a new cell; the last one gives the value. -/
def bodyInPlace (invoke : InvokeInPlace) (closure : Closure) (args : List Value) :
    List Expr → Value → List Scope → EvalState → Shared
  | [], last, cells, state => ⟨.ok last, cells, state⟩
  | expr :: rest, _, cells, state =>
    (expr.evalInPlace invoke cells.length (cells ++ [closure.callScope args]) state).andThen
      fun value cells state => bodyInPlace invoke closure args rest value cells state

def invokeInPlace (settings : Settings) : (remaining : Nat) → InvokeInPlace
  | remaining, closure, args, span, cells, state =>
    if closure.body.isEmpty then ⟨.error ⟨.emptyBody, span⟩, cells, state⟩
    else match remaining with
      | 0 => ⟨.error ⟨.tooDeep settings.limit, span⟩, cells, state⟩
      | remaining + 1 =>
        let ended := bodyInPlace (invokeInPlace settings remaining) closure args closure.body
          .undefined cells (state.enter settings span closure.name args.length)
        ⟨ended.outcome, ended.cells,
          ended.state.leave settings span closure.name (errorMessage? ended.outcome)⟩

def Expr.evaluateInPlace (settings : Settings) (expr : Expr) (cell : Nat) (cells : List Scope)
    (state : EvalState) : Shared :=
  expr.evalInPlace (invokeInPlace settings (state.remaining settings)) cell cells state

/-! ## Nothing else is touched -/

/-- An evaluation in a cell ends like another one, whose scope is then in the cell, and has left the
other cells alone. -/
structure Shared.Carries (before : List Scope) (cell : Nat) (shared : Shared)
    (ended : Evaluated) : Prop where
  outcome : shared.outcome = ended.outcome
  state : shared.state = ended.state
  here : shared.cells[cell]? = some ended.scope
  others : ∀ other < before.length, other ≠ cell → shared.cells[other]? = before[other]?

/-- A call ends like another one, and has left all cells alone. -/
structure Shared.Returns (before : List Scope) (shared : Shared) (result : Outcome × EvalState) :
    Prop where
  outcome : shared.outcome = result.1
  state : shared.state = result.2
  kept : ∀ other < before.length, shared.cells[other]? = before[other]?

section Frame
variable {inPlace : InvokeInPlace} {invoke : Invoke} {cell : Nat} {before cells : List Scope}
  {scope : Scope} {state : EvalState}

theorem inside_of_kept {place : Nat} (kept : cells[place]? = before[place]?)
    (inside : place < before.length) : place < cells.length := by
  rw [List.getElem?_eq_getElem inside] at kept
  exact (List.getElem?_eq_some_iff.mp kept).1

theorem Shared.carries_unchanged (outcome : Outcome) (found : cells[cell]? = some scope) :
    Shared.Carries cells cell ⟨outcome, cells, state⟩ ⟨outcome, scope, state⟩ :=
  ⟨rfl, rfl, found, fun _ _ _ => rfl⟩

theorem Shared.Carries.andThen {shared : Shared} {ended : Evaluated}
    (first : shared.Carries before cell ended)
    {next : Value → List Scope → EvalState → Shared}
    {other : Value → Scope → EvalState → Evaluated}
    (carries : ∀ value cells scope state, cells[cell]? = some scope →
      (next value cells state).Carries cells cell (other value scope state)) :
    (shared.andThen next).Carries before cell (ended.andThen other) := by
  obtain ⟨outcome, cells, state⟩ := shared
  obtain ⟨_, scope, _⟩ := ended
  obtain ⟨rfl, rfl, here, others⟩ := first
  cases outcome with
  | error error => exact ⟨rfl, rfl, here, others⟩
  | ok value =>
    obtain ⟨sameOutcome, sameState, later, laterOthers⟩ := carries value cells scope state here
    refine ⟨sameOutcome, sameState, later, fun place inside apart => ?_⟩
    have kept := others place inside apart
    exact (laterOthers place (inside_of_kept kept inside) apart).trans kept

theorem argsInPlace_carries {args : List Expr}
    (each : ∀ arg ∈ args, ∀ cells scope state, cells[cell]? = some scope →
      (arg.evalInPlace inPlace cell cells state).Carries cells cell
        (arg.evalWith invoke scope state)) :
    ∀ cells scope state next other, cells[cell]? = some scope →
      (∀ values cells scope state, cells[cell]? = some scope →
        Shared.Carries cells cell (next values cells state) (other values scope state)) →
      (argsInPlace inPlace cell args cells state next).Carries cells cell
        (withArgs (evalArgs invoke args scope state) other) := by
  induction args with
  | nil =>
    intro cells scope state next other found carries
    rw [argsInPlace, evalArgs]
    exact carries [] cells scope state found
  | cons arg rest ih =>
    intro cells scope state next other found carries
    obtain ⟨first, others⟩ := List.forall_mem_cons.mp each
    rw [argsInPlace, withArgs_cons]
    refine (first cells scope state found).andThen fun value cells scope state found => ?_
    exact ih others cells scope state _ _ found fun values => carries (value :: values)

variable (agrees : ∀ closure args span cells state,
  (inPlace closure args span cells state).Returns cells (invoke closure args span state))
include agrees

/-- In its cell, an expression comes to what it comes to in the scope that is there. -/
theorem Expr.evalInPlace_carries (expr : Expr) : ∀ cells scope state, cells[cell]? = some scope →
    (expr.evalInPlace inPlace cell cells state).Carries cells cell
      (expr.evalWith invoke scope state) := by
  induction expr using children_induction with
  | node expr ih =>
    intro cells scope state found
    have stored : cells.getD cell .empty = scope := by
      rw [List.getD_eq_getElem?_getD, found]
      rfl
    cases expr with
    | hole =>
      rw [evalInPlace, evalWith]
      exact Shared.carries_unchanged _ found
    | literal span value =>
      rw [evalInPlace, evalWith]
      exact Shared.carries_unchanged _ found
    | read span name =>
      rw [evalInPlace, evalWith, stored]
      exact Shared.carries_unchanged _ found
    | function span params body =>
      rw [evalInPlace, evalWith, stored]
      exact Shared.carries_unchanged _ found
    | define span name value =>
      rw [evalInPlace, evalWith_define]
      refine (ih value (by simp [children]) cells scope state found).andThen ?_
      intro result cells scope state found
      refine ⟨rfl, rfl, ?_, fun other inside apart => ?_⟩
      · simp [found, bindDefined]
      · simp [Ne.symm apart]
    | binary span symbol left right =>
      rw [evalInPlace, evalWith_binary]
      refine (ih left (by simp [children]) cells scope state found).andThen ?_
      intro a cells scope state found
      refine (ih right (by simp [children]) cells scope state found).andThen ?_
      intro b cells scope state found
      exact Shared.carries_unchanged _ found
    | guarded span condition consequent =>
      rw [evalInPlace, evalWith_guarded]
      refine (ih condition (by simp [children]) cells scope state found).andThen ?_
      intro test cells scope state found
      split
      · exact ih consequent (by simp [children]) cells scope state found
      · exact Shared.carries_unchanged _ found
    | call span callee args =>
      rw [evalInPlace, evalWith_call]
      refine (ih callee (by simp [children]) cells scope state found).andThen ?_
      intro target cells scope state found
      cases calleeError? target with
      | some failure => exact Shared.carries_unchanged _ found
      | none =>
        refine argsInPlace_carries (fun arg isIn => ih arg (by simp [children, isIn]))
          cells scope state _ _ found fun values cells scope state found => ?_
        cases target with
        | function closure =>
          have called := agrees closure values span.known? cells state
          have inside : cell < cells.length := (List.getElem?_eq_some_iff.mp found).1
          exact ⟨called.outcome, called.state, (called.kept cell inside).trans found,
            fun other within _ => called.kept other within⟩
        | _ => exact Shared.carries_unchanged _ found

theorem bodyInPlace_returns (closure : Closure) (args : List Value) (body : List Expr) :
    ∀ last cells state, (bodyInPlace inPlace closure args body last cells state).Returns cells
      (runBody invoke closure args body last state) := by
  induction body with
  | nil =>
    intro last cells state
    exact ⟨rfl, rfl, fun _ _ => rfl⟩
  | cons expr rest ih =>
    intro last cells state
    have fresh : (cells ++ [closure.callScope args])[cells.length]? =
        some (closure.callScope args) := by
      simp
    have first := expr.evalInPlace_carries agrees _ _ state fresh
    -- the cells that were there before are not the new one
    have kept (other : Nat) (inside : other < cells.length) :
        (expr.evalInPlace inPlace cells.length (cells ++ [closure.callScope args])
          state).cells[other]? = cells[other]? := by
      rw [first.others other (by simp; omega) (by omega), List.getElem?_append_left inside]
    have sameOutcome := first.outcome
    have sameState := first.state
    rw [bodyInPlace, runBody]
    generalize expr.evalInPlace inPlace cells.length (cells ++ [closure.callScope args]) state =
      shared at kept sameOutcome sameState ⊢
    generalize expr.evalWith invoke (closure.callScope args) state =
      ended at sameOutcome sameState ⊢
    obtain ⟨outcome, after, later⟩ := shared
    obtain ⟨_, left, _⟩ := ended
    obtain rfl : outcome = _ := sameOutcome
    obtain rfl : later = _ := sameState
    cases outcome with
    | error error => exact ⟨rfl, rfl, kept⟩
    | ok value =>
      have rest := ih value after later
      refine ⟨rest.outcome, rest.state, fun other inside => ?_⟩
      have keptFirst := kept other inside
      exact (rest.kept other (inside_of_kept keptFirst inside)).trans keptFirst

end Frame

theorem invokeInPlace_returns (settings : Settings) (remaining : Nat) :
    ∀ closure args span cells state,
      (invokeInPlace settings remaining closure args span cells state).Returns cells
        (invokeAt settings remaining closure args span state) := by
  induction remaining with
  | zero =>
    intro closure args span cells state
    rw [invokeInPlace, invokeAt]
    split <;> exact ⟨rfl, rfl, fun _ _ => rfl⟩
  | succ remaining ih =>
    intro closure args span cells state
    rw [invokeInPlace, invokeAt]
    split
    · exact ⟨rfl, rfl, fun _ _ => rfl⟩
    · have body := bodyInPlace_returns ih closure args closure.body .undefined cells
        (state.enter settings span closure.name args.length)
      refine ⟨body.outcome, ?_, body.kept⟩
      simp only [body.outcome, body.state]

theorem Expr.evaluateInPlace_carries (settings : Settings) (expr : Expr) {cells : List Scope}
    {cell : Nat} {scope : Scope} (state : EvalState) (found : cells[cell]? = some scope) :
    (expr.evaluateInPlace settings cell cells state).Carries cells cell
      (expr.evaluate settings scope state) := by
  rw [evaluate_eq_eval, eval, evaluateInPlace]
  exact expr.evalInPlace_carries (invokeInPlace_returns settings _) cells scope state found

/-! ## The scopes of a host -/

namespace Host

theorem store_scope (host : Host) (target : Option String) (outcome : Outcome) (name : String) :
    (host.store target outcome).scope name = host.scope name := by
  unfold store
  split
  · split <;> rfl
  · rfl

theorem eval_scope [Yaml.Library] (host : Host) (evaluator scope : String) (expr : Expr)
    (target : Option String) (name : String) :
    (host.step (.eval evaluator scope expr target)).1.scope name =
      if name = scope then
        (expr.evaluate (host.evaluator evaluator).settings (host.scope scope)
          (host.enter (host.evaluator evaluator))).scope
      else host.scope name := by
  unfold step
  dsimp only
  rw [store_scope, Host.scope, putScope, lookup_put]
  split <;> rfl

end Host

/-- Evaluation writes what the expression defines outside its functions, and nothing else: not in
other cells, however deep its calls are, nor in other scopes or registers of a host. -/
theorem evaluation_writes_definitions_only [Yaml.Library] (settings : Settings) (expr : Expr) :
    (∀ (scope : Scope) state, scope.WrittenBy expr (expr.evaluate settings scope state).scope) ∧
      (∀ cells cell scope state, cells[cell]? = some scope →
        (expr.evaluateInPlace settings cell cells state).Carries cells cell
          (expr.evaluate settings scope state)) ∧
      (∀ remaining closure args span cells state,
        (invokeInPlace settings remaining closure args span cells state).Returns cells
          (invokeAt settings remaining closure args span state)) ∧
      ∀ (host : Host) evaluator scope target,
        let after := (host.step (.eval evaluator scope expr target)).1
        (host.scope scope).WrittenBy expr (after.scope scope) ∧
          (∀ other, other ≠ scope → after.scope other = host.scope other) ∧
          ∀ register, target ≠ some register →
            after.value (.stored register) = host.value (.stored register) := by
  refine ⟨fun scope state => expr.evaluate_writtenBy settings scope state, ?_,
    invokeInPlace_returns settings, ?_⟩
  · exact fun cells cell scope state found => expr.evaluateInPlace_carries settings state found
  · intro host evaluator scope target after
    refine ⟨?_, fun other apart => ?_, fun register apart => host.step_value apart⟩
    · rw [Host.eval_scope, if_pos rfl]
      exact expr.evaluate_writtenBy _ _ _
    · rw [Host.eval_scope, if_neg apart]

def bindsWithin : Closure :=
  .mk 0 "f" ["p"] [.define Span.zero "x" (.read Span.zero "p")] [("x", .number 5)]

def callsThenFails : Expr :=
  .binary Span.zero "+"
    (.call Span.zero (.read Span.zero "f") [.define Span.zero "y" (.literal Span.zero 1)])
    .hole

theorem evaluation_writes_definitions_only_callsThenFails :
    let caller : Scope := [("f", .function bindsWithin), ("x", .number 7)]
    let cells : List Scope := [caller, bindsWithin.snapshot]
    let ended := callsThenFails.evaluateInPlace ⟨1, true, ""⟩ 0 cells ⟨Tracker.zero, 1, []⟩
    cells[0]? = some caller ∧
      (∃ left, ended.cells[0]? = some left ∧ left.find? "x" = caller.find? "x") ∧
      ended.cells[1]? = some bindsWithin.snapshot := by
  intro caller cells ended
  obtain ⟨written, inPlace, -, -⟩ := evaluation_writes_definitions_only ⟨1, true, ""⟩ callsThenFails
  have found : cells[0]? = some caller := rfl
  have carries := inPlace cells 0 caller ⟨Tracker.zero, 1, []⟩ found
  refine ⟨found, ⟨_, carries.here, ?_⟩, carries.others 1 (by decide) (by decide)⟩
  by_contra differs
  have isDefined := (written caller ⟨Tracker.zero, 1, []⟩).changed "x" differs
  simp [callsThenFails, Expr.defines, Expr.definesAll] at isDefined

end Sapling
