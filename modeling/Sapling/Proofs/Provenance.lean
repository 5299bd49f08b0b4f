import Sapling.Proofs.Closures
import Sapling.Proofs.Runs
import Sapling.Proofs.Trees

/-!
# Where failures come from

Evaluation makes no new code: every expression it evaluates, and the code of every function it
meets, is part of the trees it was given.  This is said for any property `p` that a tree hands down
to its children (`Hereditary`).  If it holds of the statements and of the functions in the scope,
then every step of the machine keeps it (`Machine.from_step`), and an error comes from a node that
has it (`EvalError.From`): the node that is missing, whose operator is unknown, or whose call
fails.
-/

set_option autoImplicit false

namespace Sapling

/-- The function was made by a function node with the property. -/
def Closure.From (p : Expr → Prop) (closure : Closure) : Prop :=
  ∃ place, p (.function place closure.params closure.body)

abbrev Value.From (p : Expr → Prop) (value : Value) : Prop := value.Each (Closure.From p)

abbrev Scope.From (p : Expr → Prop) (scope : Scope) : Prop := scope.Each (Closure.From p)

def CallAt (p : Expr → Prop) (span : Option Span) : Prop :=
  ∃ place callee args, place.known? = span ∧ p (.call place callee args)

def OperatorAt (p : Expr → Prop) (symbol : String) (span : Option Span) : Prop :=
  ∃ place left right, place.known? = span ∧ p (.binary place symbol left right)

/-- The error comes from a node with the property. -/
def EvalError.From (p : Expr → Prop) (error : EvalError) : Prop :=
  match error.failure with
  | .missingExpression => p .hole
  | .unknownOperator symbol =>
    Operator.ofSymbol? symbol = none ∧ OperatorAt p symbol error.span
  | .undefinedOperand symbol | .wrongOperand symbol _ => OperatorAt p symbol error.span
  | .notFunction _ | .undefinedCallee | .unboundCallee _ | .tooDeep _ => CallAt p error.span
  | .emptyBody => CallAt p error.span ∧ ∃ place params, p (.function place params [])

def Outcome.From (p : Expr → Prop) : Outcome → Prop
  | .ok value => value.From p
  | .error error => error.From p

def Frame.From (p : Expr → Prop) : Frame → Prop
  | .define _ _ => True
  | .right span symbol operand => OperatorAt p symbol span ∧ p operand
  | .operate span symbol left => OperatorAt p symbol span ∧ left.From p
  | .branch consequent => p consequent
  | .callee span _ args => CallAt p span ∧ ∀ arg ∈ args, p arg
  | .argument span _ target done rest =>
    CallAt p span ∧ target.From p ∧ (∀ value ∈ done, value.From p) ∧ ∀ arg ∈ rest, p arg
  | .body _ closure args rest caller =>
    (Value.function closure).From p ∧ (∀ arg ∈ args, arg.From p) ∧ (∀ expr ∈ rest, p expr) ∧
      caller.From p

def Control.From (p : Expr → Prop) : Control → Prop
  | .eval expr => p expr
  | .give outcome => Outcome.From p outcome

structure Machine.From (p : Expr → Prop) (m : Machine) : Prop where
  control : m.control.From p
  scope : m.scope.From p
  frames : ∀ frame ∈ m.frames, frame.From p

/-! ## Errors -/

section Errors
variable {p : Expr → Prop} {symbol : String} {span : Option Span}

theorem operate_from {left right : Value} (node : OperatorAt p symbol span) :
    Outcome.From p (operate symbol span left right) := by
  have given := operate_operated symbol span left right
  generalize operate symbol span left right = outcome at given ⊢
  cases given with
  | number value => exact .number value
  | boolean value => exact .boolean value
  | undefinedOperand => exact node
  | wrongOperand type => exact node
  | unknownOperator unknown => exact ⟨unknown, node⟩

theorem calleeError?_from {value : Value} {failure : Failure} (node : CallAt p span)
    (failed : calleeError? value = some failure) : EvalError.From p ⟨failure, span⟩ := by
  cases value <;> simp only [calleeError?, reduceCtorEq, Option.some.injEq] at failed <;>
    (subst failed; exact node)

theorem noCallee_from (node : CallAt p span) (expr : Expr) :
    EvalError.From p ⟨noCallee expr, span⟩ := by
  cases expr <;> exact node

end Errors

theorem Value.From.named {p : Expr → Prop} {value : Value} (holds : value.From p) (name : String) :
    (value.named name).From p := by
  cases holds with
  | undefined => exact .undefined
  | number value => exact .number value
  | boolean value => exact .boolean value
  | @function closure here inside =>
    cases closure
    exact .function here inside

namespace Machine

section Step
variable {p : Expr → Prop} {scope : Scope} {state : EvalState} {remaining : Nat}
  {frames : List Frame}

theorem from_evaluating {expr : Expr} (holds : p expr) (scopeHolds : scope.From p)
    (framesHold : ∀ frame ∈ frames, frame.From p) :
    From p (evaluating expr scope state remaining frames) :=
  ⟨holds, scopeHolds, framesHold⟩

theorem from_giving {outcome : Outcome} (holds : Outcome.From p outcome)
    (scopeHolds : scope.From p) (framesHold : ∀ frame ∈ frames, frame.From p) :
    From p (giving outcome scope state remaining frames) :=
  ⟨holds, scopeHolds, framesHold⟩

theorem frames_cons {frame : Frame} (holds : frame.From p)
    (framesHold : ∀ frame ∈ frames, frame.From p) : ∀ other ∈ frame :: frames, other.From p :=
  List.forall_mem_cons.mpr ⟨holds, framesHold⟩

theorem invoke_from (hereditary : Hereditary p) (settings : Settings) {closure : Closure}
    {args : List Value} {span : Option Span} (node : CallAt p span)
    (made : (Value.function closure).From p) (argsHold : ∀ arg ∈ args, arg.From p)
    (scopeHolds : scope.From p) (framesHold : ∀ frame ∈ frames, frame.From p) :
    From p (invoke settings closure args span scope state remaining frames) := by
  cases made with
  | function here inside =>
    obtain ⟨place, code⟩ := here
    have bodyHolds := hereditary _ code
    unfold invoke
    split
    · rename_i empty
      rw [empty] at code
      exact from_giving ⟨node, place, closure.params, code⟩ scopeHolds framesHold
    · rename_i expr rest body
      rw [Expr.children, body] at bodyHolds
      obtain ⟨exprHolds, restHolds⟩ := List.forall_mem_cons.mp bodyHolds
      have closureHolds : (Value.function closure).From p := .function ⟨place, code⟩ inside
      split
      · exact from_giving node scopeHolds framesHold
      · exact from_evaluating exprHolds (Closure.callScope_each closureHolds argsHold)
          (frames_cons ⟨closureHolds, argsHold, restHolds, scopeHolds⟩ framesHold)

theorem arguments_from (hereditary : Hereditary p) (settings : Settings) {span : Option Span}
    (expr : Expr) {target : Value} {done : List Value} {rest : List Expr} (node : CallAt p span)
    (targetHolds : target.From p) (doneHolds : ∀ value ∈ done, value.From p)
    (restHolds : ∀ arg ∈ rest, p arg) (scopeHolds : scope.From p)
    (framesHold : ∀ frame ∈ frames, frame.From p) :
    From p (arguments settings span expr target done rest scope state remaining frames) := by
  unfold arguments
  split
  · obtain ⟨argHolds, restHolds⟩ := List.forall_mem_cons.mp restHolds
    exact from_evaluating argHolds scopeHolds
      (frames_cons ⟨node, targetHolds, doneHolds, restHolds⟩ framesHold)
  · split
    · refine invoke_from hereditary settings node targetHolds ?_ scopeHolds framesHold
      exact fun arg member => doneHolds arg (List.mem_reverse.mp member)
    · exact from_giving (noCallee_from node expr) scopeHolds framesHold

theorem unfoldExpr_from (hereditary : Hereditary p) {expr : Expr} (holds : p expr)
    (scopeHolds : scope.From p) (framesHold : ∀ frame ∈ frames, frame.From p) :
    From p (unfoldExpr expr scope state remaining frames) := by
  have childHolds := hereditary expr holds
  cases expr with
  | hole => exact from_giving holds scopeHolds framesHold
  | literal span value => exact from_giving (.number value) scopeHolds framesHold
  | read span name => exact from_giving (scopeHolds.get name) scopeHolds framesHold
  | define span name value =>
    exact from_evaluating (childHolds value (by simp [Expr.children])) scopeHolds
      (frames_cons trivial framesHold)
  | binary span symbol left right =>
    exact from_evaluating (childHolds left (by simp [Expr.children])) scopeHolds
      (frames_cons ⟨⟨span, left, right, rfl, holds⟩, childHolds right (by simp [Expr.children])⟩
        framesHold)
  | guarded span condition consequent =>
    exact from_evaluating (childHolds condition (by simp [Expr.children])) scopeHolds
      (frames_cons (childHolds consequent (by simp [Expr.children])) framesHold)
  | function span params body =>
    exact from_giving (.function ⟨span, holds⟩ scopeHolds) scopeHolds framesHold
  | call span callee args =>
    refine from_evaluating (childHolds callee (by simp [Expr.children])) scopeHolds
      (frames_cons ⟨⟨span, callee, args, rfl, holds⟩, ?_⟩ framesHold)
    exact fun arg member => childHolds arg (List.mem_cons_of_mem callee member)

theorem accept_from (hereditary : Hereditary p) (settings : Settings) {value : Value}
    {frame : Frame} (valueHolds : value.From p) (frameHolds : frame.From p)
    (scopeHolds : scope.From p) (framesHold : ∀ frame ∈ frames, frame.From p) :
    From p (accept settings value scope state remaining frame frames) := by
  cases frame with
  | define name isFunction =>
    have boundHolds : (if isFunction then value.named name else value).From p := by
      split
      · exact valueHolds.named name
      · exact valueHolds
    exact from_giving boundHolds (scopeHolds.bind name boundHolds) framesHold
  | right span symbol operand =>
    exact from_evaluating frameHolds.2 scopeHolds
      (frames_cons ⟨frameHolds.1, valueHolds⟩ framesHold)
  | operate span symbol left =>
    exact from_giving (operate_from frameHolds.1) scopeHolds framesHold
  | branch consequent =>
    simp only [accept]
    split
    · exact from_evaluating frameHolds scopeHolds framesHold
    · exact from_giving (.number 1) scopeHolds framesHold
  | callee span expr args =>
    simp only [accept]
    split
    · rename_i failure failed
      exact from_giving (calleeError?_from frameHolds.1 failed) scopeHolds framesHold
    · exact arguments_from hereditary settings expr frameHolds.1 valueHolds
        (fun _ member => absurd member List.not_mem_nil) frameHolds.2 scopeHolds framesHold
  | argument span expr target done rest =>
    obtain ⟨node, targetHolds, doneHolds, restHolds⟩ := frameHolds
    exact arguments_from hereditary settings expr node targetHolds
      (List.forall_mem_cons.mpr ⟨valueHolds, doneHolds⟩) restHolds scopeHolds framesHold
  | body span closure args rest caller =>
    obtain ⟨closureHolds, argsHold, restHolds, callerHolds⟩ := frameHolds
    cases rest with
    | nil => exact from_giving valueHolds callerHolds framesHold
    | cons expr rest =>
      obtain ⟨exprHolds, restHolds⟩ := List.forall_mem_cons.mp restHolds
      exact from_evaluating exprHolds (Closure.callScope_each closureHolds argsHold)
        (frames_cons ⟨closureHolds, argsHold, restHolds, callerHolds⟩ framesHold)

theorem reject_from (settings : Settings) {error : EvalError} {frame : Frame}
    (errorHolds : error.From p) (frameHolds : frame.From p) (scopeHolds : scope.From p)
    (framesHold : ∀ frame ∈ frames, frame.From p) :
    From p (reject settings error scope state remaining frame frames) := by
  cases frame with
  | body span closure args rest caller =>
    exact from_giving errorHolds frameHolds.2.2.2 framesHold
  | _ => exact from_giving errorHolds scopeHolds framesHold

end Step

theorem from_step {p : Expr → Prop} (hereditary : Hereditary p) {settings : Settings}
    {m next : Machine} (holds : From p m) (stepped : m.step settings = .inl next) :
    From p next := by
  rcases m with ⟨control, scope, state, remaining, frames⟩
  obtain ⟨controlHolds, scopeHolds, framesHold⟩ := holds
  cases control with
  | eval expr =>
    cases Sum.inl.inj stepped
    exact unfoldExpr_from hereditary controlHolds scopeHolds framesHold
  | give outcome =>
    cases frames with
    | nil => simp [step] at stepped
    | cons frame frames =>
      obtain ⟨frameHolds, othersHold⟩ := List.forall_mem_cons.mp framesHold
      cases outcome with
      | ok value =>
        cases Sum.inl.inj stepped
        exact accept_from hereditary settings controlHolds frameHolds scopeHolds othersHold
      | error error =>
        cases Sum.inl.inj stepped
        exact reject_from settings controlHolds frameHolds scopeHolds othersHold

end Machine

/-! ## Executions -/

theorem Expr.evaluate_from {p : Expr → Prop} (hereditary : Hereditary p) (settings : Settings)
    {expr : Expr} (holds : p expr) {scope : Scope} (scopeHolds : scope.From p)
    (state : EvalState) :
    Outcome.From p (expr.evaluate settings scope state).outcome ∧
      (expr.evaluate settings scope state).scope.From p := by
  refine Machine.run_preserves settings (Machine.From p)
    (fun ended => Outcome.From p ended.outcome ∧ ended.scope.From p)
    (fun m next holds stepped => Machine.from_step hereditary holds stepped) ?_ _
    (Machine.from_evaluating holds scopeHolds fun _ member => absurd member List.not_mem_nil)
  intro m evaluated holds ended
  rw [Machine.step_eq_inr ended] at holds
  exact ⟨holds.control, holds.scope⟩

theorem executeFrom_from {p : Expr → Prop} (hereditary : Hereditary p) (settings : Settings)
    (statements : List Expr) (holds : ∀ statement ∈ statements, p statement) :
    ∀ index scope state, Scope.From p scope →
      (∀ error, (executeFrom settings index statements scope state).error = some error →
        error.From p) ∧
      (executeFrom settings index statements scope state).scope.From p := by
  induction statements with
  | nil =>
    intro index scope state scopeHolds
    refine ⟨fun error failed => ?_, scopeHolds⟩
    cases failed
  | cons statement rest ih =>
    intro index scope state scopeHolds
    obtain ⟨statementHolds, restHolds⟩ := List.forall_mem_cons.mp holds
    have first := statement.evaluate_from hereditary settings statementHolds scopeHolds
      (state.openStatement settings index statement)
    cases evaluated : statement.evaluate settings scope
        (state.openStatement settings index statement) with
    | mk outcome after later =>
      rw [evaluated] at first
      cases outcome with
      | error error =>
        rw [executeFrom_error rest evaluated]
        refine ⟨fun other failed => ?_, first.2⟩
        cases failed
        exact first.1
      | ok value =>
        rw [executeFrom_ok rest evaluated]
        exact ih restHolds (index + 1) after (later.closeStatement settings index statement) first.2

theorem Program.execute_from {p : Expr → Prop} (hereditary : Hereditary p) (settings : Settings)
    {program : Program} (holds : ∀ statement ∈ program.statements, p statement) {scope : Scope}
    (scopeHolds : scope.From p) (nextId : Nat) :
    (∀ error, (program.execute settings scope nextId).error = some error → error.From p) ∧
      (program.execute settings scope nextId).scope.From p :=
  executeFrom_from hereditary settings program.statements holds 0 scope _ scopeHolds

end Sapling
