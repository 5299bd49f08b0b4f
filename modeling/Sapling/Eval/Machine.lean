import Sapling.Eval

/-!
# Evaluation without recursion

Evaluation as a machine that keeps what is still to be done in a list of frames, so that the
nesting of calls is bounded by the limit and not by the space for recursive calls.  Every run of the
machine ends (`Machine.endsAll`), and it gives what the recursive evaluation gives
(`Machine.run_eval`).
-/

set_option autoImplicit false

namespace Sapling

inductive Frame
  | define (name : String) (isFunction : Bool)
  | right (span : Option Span) (symbol : String) (operand : Expr)
  | operate (span : Option Span) (symbol : String) (left : Value)
  | branch (consequent : Expr)
  | callee (span : Option Span) (expr : Expr) (args : List Expr)
  /-- Evaluate the next argument, or make the call; `done` holds the arguments so far, last
  first. -/
  | argument (span : Option Span) (expr : Expr) (target : Value) (done : List Value)
      (rest : List Expr)
  | body (span : Option Span) (closure : Closure) (args : List Value) (rest : List Expr)
      (caller : Scope)

inductive Control
  | eval (expr : Expr)
  | give (outcome : Outcome)

structure Machine where
  control : Control
  scope : Scope
  state : EvalState
  /-- How many further calls may be nested. -/
  remaining : Nat
  frames : List Frame

namespace Machine

def giving (outcome : Outcome) (scope : Scope) (state : EvalState) (remaining : Nat)
    (frames : List Frame) : Machine := ⟨.give outcome, scope, state, remaining, frames⟩

def evaluating (expr : Expr) (scope : Scope) (state : EvalState) (remaining : Nat)
    (frames : List Frame) : Machine := ⟨.eval expr, scope, state, remaining, frames⟩

def invoke (settings : Settings) (closure : Closure) (args : List Value) (span : Option Span)
    (scope : Scope) (state : EvalState) (remaining : Nat) (frames : List Frame) : Machine :=
  match closure.body with
  | [] => giving (.error ⟨.emptyBody, span⟩) scope state remaining frames
  | expr :: rest =>
    match remaining with
    | 0 => giving (.error ⟨.tooDeep settings.limit, span⟩) scope state 0 frames
    | remaining + 1 =>
      evaluating expr (closure.callScope args)
        (state.enter settings span closure.name args.length) remaining
        (.body span closure args rest scope :: frames)

def arguments (settings : Settings) (span : Option Span) (expr : Expr) (target : Value)
    (done : List Value) (rest : List Expr) (scope : Scope) (state : EvalState) (remaining : Nat)
    (frames : List Frame) : Machine :=
  match rest with
  | arg :: rest =>
    evaluating arg scope state remaining (.argument span expr target done rest :: frames)
  | [] =>
    match target with
    | .function closure =>
      invoke settings closure done.reverse span scope state remaining frames
    | _ => giving (.error ⟨noCallee expr, span⟩) scope state remaining frames

def unfoldExpr (expr : Expr) (scope : Scope) (state : EvalState) (remaining : Nat)
    (frames : List Frame) : Machine :=
  match expr with
  | .hole => giving (.error ⟨.missingExpression, none⟩) scope state remaining frames
  | .literal _ value => giving (.ok (.number value)) scope state remaining frames
  | .read _ name => giving (.ok (scope.get name)) scope state remaining frames
  | .define _ name value =>
    evaluating value scope state remaining (.define name value.isFunction :: frames)
  | .binary span symbol left right =>
    evaluating left scope state remaining (.right span.known? symbol right :: frames)
  | .guarded _ condition consequent =>
    evaluating condition scope state remaining (.branch consequent :: frames)
  | .function _ params body =>
    let (value, state) := makeClosure params body scope state
    giving (.ok value) scope state remaining frames
  | .call span callee args =>
    evaluating callee scope state remaining (.callee span.known? callee args :: frames)

def accept (settings : Settings) (value : Value) (scope : Scope) (state : EvalState)
    (remaining : Nat) (frame : Frame) (frames : List Frame) : Machine :=
  match frame with
  | .define name isFunction =>
    let (value, scope) := bindDefined name isFunction value scope
    giving (.ok value) scope state remaining frames
  | .right span symbol operand =>
    evaluating operand scope state remaining (.operate span symbol value :: frames)
  | .operate span symbol left =>
    giving (Sapling.operate symbol span left value) scope state remaining frames
  | .branch consequent =>
    if value.isTrue then evaluating consequent scope state remaining frames
    else giving (.ok (.number 1)) scope state remaining frames
  | .callee span expr args =>
    match calleeError? value with
    | some failure => giving (.error ⟨failure, span⟩) scope state remaining frames
    | none => arguments settings span expr value [] args scope state remaining frames
  | .argument span expr target done rest =>
    arguments settings span expr target (value :: done) rest scope state remaining frames
  | .body span closure args rest caller =>
    match rest with
    | [] =>
      giving (.ok value) caller (state.leave settings span closure.name none) (remaining + 1) frames
    | expr :: rest =>
      evaluating expr (closure.callScope args) state remaining
        (.body span closure args rest caller :: frames)

def reject (settings : Settings) (error : EvalError) (scope : Scope) (state : EvalState)
    (remaining : Nat) (frame : Frame) (frames : List Frame) : Machine :=
  match frame with
  | .body span closure _ _ caller =>
    giving (.error error) caller
      (state.leave settings span closure.name (some error.message)) (remaining + 1) frames
  | _ => giving (.error error) scope state remaining frames

def step (settings : Settings) (m : Machine) : Machine ⊕ Evaluated :=
  match m.control, m.frames with
  | .eval expr, frames => .inl (unfoldExpr expr m.scope m.state m.remaining frames)
  | .give outcome, [] => .inr ⟨outcome, m.scope, m.state⟩
  | .give (.ok value), frame :: frames =>
    .inl (accept settings value m.scope m.state m.remaining frame frames)
  | .give (.error error), frame :: frames =>
    .inl (reject settings error m.scope m.state m.remaining frame frames)

/-! ## Every run ends -/

def Follows (settings : Settings) (next m : Machine) : Prop := m.step settings = .inl next

abbrev Ends (settings : Settings) (m : Machine) : Prop := Acc (Follows settings) m

/-- Frames that end every run that hands them an outcome. -/
def Closing (settings : Settings) (remaining : Nat) (frames : List Frame) : Prop :=
  ∀ outcome scope state, Ends settings (giving outcome scope state remaining frames)

theorem ends_of_step {settings : Settings} {m next : Machine}
    (stepped : m.step settings = .inl next) (ends : Ends settings next) : Ends settings m := by
  refine Acc.intro m fun other follows => ?_
  have same : next = other := by
    have := stepped.symm.trans follows
    injection this
  exact same ▸ ends

theorem closing_nil (settings : Settings) (remaining : Nat) : Closing settings remaining [] := by
  intro outcome scope state
  refine Acc.intro _ fun other follows => ?_
  simp [Follows, step, giving] at follows

theorem closing_cons {settings : Settings} {remaining : Nat} {frame : Frame} {frames : List Frame}
    (onError : ∀ error scope state,
      Ends settings (reject settings error scope state remaining frame frames))
    (onValue : ∀ value scope state,
      Ends settings (accept settings value scope state remaining frame frames)) :
    Closing settings remaining (frame :: frames) := by
  intro outcome scope state
  cases outcome with
  | error error => exact ends_of_step (by rfl) (onError error scope state)
  | ok value => exact ends_of_step (by rfl) (onValue value scope state)

def ExprEnds (settings : Settings) (remaining : Nat) (expr : Expr) : Prop :=
  ∀ frames, Closing settings remaining frames →
    ∀ scope state, Ends settings (evaluating expr scope state remaining frames)

theorem closing_define {settings : Settings} {remaining : Nat} {frames : List Frame}
    (name : String) (isFunction : Bool) (closing : Closing settings remaining frames) :
    Closing settings remaining (.define name isFunction :: frames) :=
  closing_cons (fun error scope state => closing (.error error) scope state)
    fun _ _ state => closing (.ok _) _ state

theorem closing_operate {settings : Settings} {remaining : Nat} {frames : List Frame}
    (span : Option Span) (symbol : String) (left : Value)
    (closing : Closing settings remaining frames) :
    Closing settings remaining (.operate span symbol left :: frames) :=
  closing_cons (fun error scope state => closing (.error error) scope state)
    fun _ scope state => closing _ scope state

theorem closing_right {settings : Settings} {remaining : Nat} {frames : List Frame}
    (span : Option Span) (symbol : String) {operand : Expr}
    (operandEnds : ExprEnds settings remaining operand)
    (closing : Closing settings remaining frames) :
    Closing settings remaining (.right span symbol operand :: frames) :=
  closing_cons (fun error scope state => closing (.error error) scope state)
    fun value scope state =>
      operandEnds _ (closing_operate span symbol value closing) scope state

theorem closing_branch {settings : Settings} {remaining : Nat} {frames : List Frame}
    {consequent : Expr} (consequentEnds : ExprEnds settings remaining consequent)
    (closing : Closing settings remaining frames) :
    Closing settings remaining (.branch consequent :: frames) := by
  refine closing_cons (fun error scope state => closing (.error error) scope state)
    fun value scope state => ?_
  unfold accept
  dsimp only
  split
  · exact consequentEnds _ closing scope state
  · exact closing _ scope state

def InvokeEnds (settings : Settings) (remaining : Nat) : Prop :=
  ∀ closure args span frames, Closing settings remaining frames →
    ∀ scope state, Ends settings (invoke settings closure args span scope state remaining frames)

theorem arguments_end {settings : Settings} {remaining : Nat}
    (invokeEnds : InvokeEnds settings remaining) (span : Option Span) (expr : Expr)
    (target : Value) {frames : List Frame} (closing : Closing settings remaining frames)
    (rest : List Expr) (restEnds : ∀ arg ∈ rest, ExprEnds settings remaining arg) :
    ∀ done scope state,
      Ends settings
        (arguments settings span expr target done rest scope state remaining frames) := by
  induction rest with
  | nil =>
    intro done scope state
    cases target with
    | function closure => exact invokeEnds closure done.reverse span frames closing scope state
    | undefined => exact closing _ scope state
    | number value => exact closing _ scope state
    | boolean value => exact closing _ scope state
  | cons arg rest ih =>
    intro done scope state
    have argClosing : Closing settings remaining (.argument span expr target done rest :: frames) :=
      closing_cons (fun error scope state => closing (.error error) scope state)
        fun value scope state =>
          ih (fun arg member => restEnds arg (List.mem_cons_of_mem _ member)) (value :: done)
            scope state
    exact restEnds arg List.mem_cons_self _ argClosing scope state

theorem closing_callee {settings : Settings} {remaining : Nat}
    (invokeEnds : InvokeEnds settings remaining) (span : Option Span) (expr : Expr)
    {frames : List Frame} (closing : Closing settings remaining frames)
    {args : List Expr} (argsEnd : ∀ arg ∈ args, ExprEnds settings remaining arg) :
    Closing settings remaining (.callee span expr args :: frames) := by
  refine closing_cons (fun error scope state => closing (.error error) scope state)
    fun value scope state => ?_
  unfold accept
  dsimp only
  split
  · exact closing _ scope state
  · exact arguments_end invokeEnds span expr value closing args argsEnd [] scope state

mutual

theorem expr_ends {settings : Settings} {remaining : Nat}
    (invokeEnds : InvokeEnds settings remaining) :
    (expr : Expr) → ExprEnds settings remaining expr
  | .hole => fun frames closing scope state => ends_of_step (by rfl) (closing _ scope state)
  | .literal _ _ => fun frames closing scope state => ends_of_step (by rfl) (closing _ scope state)
  | .read _ _ => fun frames closing scope state => ends_of_step (by rfl) (closing _ scope state)
  | .function _ _ _ => fun frames closing scope state => ends_of_step (by rfl) (closing _ scope _)
  | .define _ name value => fun frames closing scope state =>
    ends_of_step (by rfl)
      (expr_ends invokeEnds value _ (closing_define name value.isFunction closing) scope state)
  | .binary span symbol left right => fun frames closing scope state =>
    ends_of_step (by rfl)
      (expr_ends invokeEnds left _
        (closing_right span.known? symbol (expr_ends invokeEnds right) closing) scope state)
  | .guarded _ condition consequent => fun frames closing scope state =>
    ends_of_step (by rfl)
      (expr_ends invokeEnds condition _
        (closing_branch (expr_ends invokeEnds consequent) closing) scope state)
  | .call span callee args => fun frames closing scope state =>
    ends_of_step (by rfl)
      (expr_ends invokeEnds callee _
        (closing_callee invokeEnds span.known? callee closing (exprs_end invokeEnds args))
        scope state)

theorem exprs_end {settings : Settings} {remaining : Nat}
    (invokeEnds : InvokeEnds settings remaining) :
    (exprs : List Expr) → ∀ expr ∈ exprs, ExprEnds settings remaining expr
  | [] => fun _ member => absurd member List.not_mem_nil
  | first :: rest => fun expr member => by
    rcases List.mem_cons.mp member with same | later
    · exact same ▸ expr_ends invokeEnds first
    · exact exprs_end invokeEnds rest expr later

end

theorem closing_body {settings : Settings} {remaining : Nat}
    (bodyEnds : ∀ expr, ExprEnds settings remaining expr) {frames : List Frame}
    (closing : Closing settings (remaining + 1) frames) (span : Option Span) (closure : Closure)
    (args : List Value) (rest : List Expr) (caller : Scope) :
    Closing settings remaining (.body span closure args rest caller :: frames) := by
  induction rest with
  | nil =>
    exact closing_cons (fun error _ state => closing (.error error) caller _)
      fun value _ state => closing (.ok value) caller _
  | cons expr rest ih =>
    exact closing_cons (fun error _ state => closing (.error error) caller _)
      fun value scope state => bodyEnds expr _ ih _ state

theorem invoke_ends (settings : Settings) (remaining : Nat) : InvokeEnds settings remaining := by
  induction remaining with
  | zero =>
    intro closure args span frames closing scope state
    unfold invoke
    split <;> exact closing _ scope state
  | succ remaining ih =>
    intro closure args span frames closing scope state
    unfold invoke
    split
    · exact closing _ scope state
    · exact expr_ends ih _ _ (closing_body (expr_ends ih) closing span closure args _ scope) _ _

theorem closing_all (settings : Settings) (frames : List Frame) :
    ∀ remaining, Closing settings remaining frames := by
  induction frames with
  | nil => exact closing_nil settings
  | cons frame frames ih =>
    intro remaining
    have invokeEnds := invoke_ends settings remaining
    cases frame with
    | define name isFunction => exact closing_define name isFunction (ih remaining)
    | right span symbol operand =>
      exact closing_right span symbol (expr_ends invokeEnds operand) (ih remaining)
    | operate span symbol left => exact closing_operate span symbol left (ih remaining)
    | branch consequent => exact closing_branch (expr_ends invokeEnds consequent) (ih remaining)
    | callee span expr args =>
      exact closing_callee invokeEnds span expr (ih remaining) (exprs_end invokeEnds args)
    | argument span expr target done rest =>
      exact closing_cons (fun error scope state => ih remaining (.error error) scope state)
        fun value scope state =>
          arguments_end invokeEnds span expr target (ih remaining) rest (exprs_end invokeEnds rest)
            (value :: done) scope state
    | body span closure args rest caller =>
      exact closing_body (expr_ends invokeEnds) (ih (remaining + 1)) span closure args rest caller

theorem endsAll (settings : Settings) : (m : Machine) → Ends settings m
  | ⟨.give outcome, scope, state, remaining, frames⟩ =>
    closing_all settings frames remaining outcome scope state
  | ⟨.eval expr, scope, state, remaining, frames⟩ =>
    expr_ends (invoke_ends settings remaining) expr frames (closing_all settings frames remaining)
      scope state

def run (settings : Settings) (m : Machine) : Evaluated :=
  match _stepped : m.step settings with
  | .inr evaluated => evaluated
  | .inl next => run settings next
termination_by (⟨Follows settings, ⟨endsAll settings⟩⟩ : WellFoundedRelation Machine).wf.wrap m
decreasing_by exact _stepped

/-! ## What a run gives -/

theorem run_of_step {settings : Settings} {m next : Machine}
    (stepped : m.step settings = .inl next) : m.run settings = next.run settings := by
  rw [run]
  split
  · rename_i done
    rw [stepped] at done
    cases done
  · rename_i other follows
    rw [stepped] at follows
    injection follows with same
    rw [same]

theorem run_of_end {settings : Settings} {m : Machine} {evaluated : Evaluated}
    (stepped : m.step settings = .inr evaluated) : m.run settings = evaluated := by
  rw [run]
  split
  · rename_i other done
    rw [stepped] at done
    injection done with same
    exact same.symm
  · rename_i follows
    rw [stepped] at follows
    cases follows

theorem run_value {settings : Settings} {value : Value} {scope : Scope} {state : EvalState}
    {remaining : Nat} {frame : Frame} {frames : List Frame} :
    (giving (.ok value) scope state remaining (frame :: frames)).run settings =
      (accept settings value scope state remaining frame frames).run settings :=
  run_of_step rfl

theorem run_error {settings : Settings} {error : EvalError} {scope : Scope} {state : EvalState}
    {remaining : Nat} {frame : Frame} {frames : List Frame} :
    (giving (.error error) scope state remaining (frame :: frames)).run settings =
      (reject settings error scope state remaining frame frames).run settings :=
  run_of_step rfl

theorem run_evaluating {settings : Settings} {expr : Expr} {scope : Scope} {state : EvalState}
    {remaining : Nat} {frames : List Frame} :
    (evaluating expr scope state remaining frames).run settings =
      (unfoldExpr expr scope state remaining frames).run settings :=
  run_of_step rfl

def resuming (evaluated : Evaluated) (remaining : Nat) (frames : List Frame) : Machine :=
  giving evaluated.outcome evaluated.scope evaluated.state remaining frames

/-- The machine's calls at this depth are the calls of the recursive evaluation. -/
def InvokeAgrees (settings : Settings) (remaining : Nat) : Prop :=
  ∀ closure args span scope state frames,
    (invoke settings closure args span scope state remaining frames).run settings =
      (giving (invokeAt settings remaining closure args span state).1 scope
        (invokeAt settings remaining closure args span state).2 remaining frames).run settings

def ExprAgrees (settings : Settings) (remaining : Nat) (expr : Expr) : Prop :=
  ∀ scope state frames,
    (evaluating expr scope state remaining frames).run settings =
      (resuming (expr.evalWith (invokeAt settings remaining) scope state) remaining
        frames).run settings

theorem arguments_agree {settings : Settings} {remaining : Nat}
    (invokeAgrees : InvokeAgrees settings remaining) (span : Option Span) (expr : Expr)
    (target : Value) (frames : List Frame) (rest : List Expr)
    (restAgrees : ∀ arg ∈ rest, ExprAgrees settings remaining arg) :
    ∀ done scope state,
      (arguments settings span expr target done rest scope state remaining frames).run settings =
        (resuming (match evalArgs (invokeAt settings remaining) rest scope state with
          | (.error error, scope, state) => ⟨.error error, scope, state⟩
          | (.ok values, scope, state) =>
            match target with
            | .function closure =>
              let (outcome, state) :=
                invokeAt settings remaining closure (done.reverse ++ values) span state
              ⟨outcome, scope, state⟩
            | _ => ⟨.error ⟨noCallee expr, span⟩, scope, state⟩)
          remaining frames).run settings := by
  induction rest with
  | nil =>
    intro done scope state
    cases target with
    | function closure =>
      simp only [arguments, evalArgs, List.append_nil]
      exact invokeAgrees closure done.reverse span scope state frames
    | undefined => rfl
    | number value => rfl
    | boolean value => rfl
  | cons arg rest ih =>
    intro done scope state
    have restAgrees' := fun other member => restAgrees other (List.mem_cons_of_mem arg member)
    simp only [arguments, evalArgs]
    rw [restAgrees arg List.mem_cons_self scope state]
    rcases arg.evalWith (invokeAt settings remaining) scope state with ⟨outcome, scope, state⟩
    cases outcome with
    | error error => exact run_error
    | ok value =>
      refine run_value.trans ((ih restAgrees' (value :: done) scope state).trans ?_)
      dsimp only
      rcases evalArgs (invokeAt settings remaining) rest scope state with ⟨outcome, scope, state⟩
      cases outcome with
      | error error => rfl
      | ok values => cases target <;> simp

mutual

theorem expr_agrees {settings : Settings} {remaining : Nat}
    (invokeAgrees : InvokeAgrees settings remaining) :
    (expr : Expr) → ExprAgrees settings remaining expr
  | .hole => fun _ _ _ => run_evaluating
  | .literal _ _ => fun _ _ _ => run_evaluating
  | .read _ _ => fun _ _ _ => run_evaluating
  | .function _ _ _ => fun _ _ _ => run_evaluating
  | .define _ name value => fun scope state frames => by
    rw [run_evaluating, unfoldExpr, expr_agrees invokeAgrees value, Expr.evalWith]
    rcases value.evalWith (invokeAt settings remaining) scope state with ⟨outcome, scope, state⟩
    cases outcome with
    | error error => exact run_error
    | ok value => exact run_value
  | .binary span symbol left right => fun scope state frames => by
    rw [run_evaluating, unfoldExpr, expr_agrees invokeAgrees left, Expr.evalWith]
    rcases left.evalWith (invokeAt settings remaining) scope state with ⟨outcome, scope, state⟩
    cases outcome with
    | error error => exact run_error
    | ok a =>
      refine run_value.trans ?_
      rw [accept, expr_agrees invokeAgrees right]
      dsimp only
      rcases right.evalWith (invokeAt settings remaining) scope state with ⟨outcome, scope, state⟩
      cases outcome with
      | error error => exact run_error
      | ok b => exact run_value
  | .guarded _ condition consequent => fun scope state frames => by
    rw [run_evaluating, unfoldExpr, expr_agrees invokeAgrees condition, Expr.evalWith]
    rcases condition.evalWith (invokeAt settings remaining) scope state with
      ⟨outcome, scope, state⟩
    cases outcome with
    | error error => exact run_error
    | ok test =>
      refine run_value.trans ?_
      rw [accept]
      dsimp only
      cases test.isTrue with
      | true => exact expr_agrees invokeAgrees consequent scope state frames
      | false => rfl
  | .call span callee args => fun scope state frames => by
    rw [run_evaluating, unfoldExpr, expr_agrees invokeAgrees callee, Expr.evalWith]
    rcases callee.evalWith (invokeAt settings remaining) scope state with ⟨outcome, scope, state⟩
    cases outcome with
    | error error => exact run_error
    | ok target =>
      refine run_value.trans ?_
      rw [accept]
      dsimp only
      cases calleeError? target with
      | some failure => rfl
      | none =>
        exact arguments_agree invokeAgrees span.known? callee target frames args
          (exprs_agree invokeAgrees args) [] scope state

theorem exprs_agree {settings : Settings} {remaining : Nat}
    (invokeAgrees : InvokeAgrees settings remaining) :
    (exprs : List Expr) → ∀ expr ∈ exprs, ExprAgrees settings remaining expr
  | [] => fun _ member => absurd member List.not_mem_nil
  | first :: rest => fun expr member => by
    rcases List.mem_cons.mp member with same | later
    · exact same ▸ expr_agrees invokeAgrees first
    · exact exprs_agree invokeAgrees rest expr later

end

theorem body_agrees {settings : Settings} {remaining : Nat}
    (agrees : ∀ expr, ExprAgrees settings remaining expr) (span : Option Span) (closure : Closure)
    (args : List Value) (caller : Scope) (frames : List Frame) (rest : List Expr) :
    ∀ value scope state,
      (giving (.ok value) scope state remaining
        (.body span closure args rest caller :: frames)).run settings =
      (let ended := runBody (invokeAt settings remaining) closure args rest value state
       giving ended.1 caller
         (ended.2.leave settings span closure.name (errorMessage? ended.1)) (remaining + 1)
         frames).run settings := by
  induction rest with
  | nil => exact fun _ _ _ => run_value
  | cons expr rest ih =>
    intro value scope state
    refine run_value.trans ?_
    rw [accept, runBody]
    dsimp only
    rw [agrees expr]
    rcases expr.evalWith (invokeAt settings remaining) (closure.callScope args) state with
      ⟨outcome, scope, state⟩
    cases outcome with
    | error error => exact run_error
    | ok value => exact ih value scope state

theorem invoke_agrees (settings : Settings) (remaining : Nat) :
    InvokeAgrees settings remaining := by
  induction remaining with
  | zero =>
    intro closure args span scope state frames
    rw [invoke, invokeAt]
    split <;> simp [*]
  | succ remaining ih =>
    intro closure args span scope state frames
    rw [invoke, invokeAt]
    split
    · simp [*]
    · rename_i expr rest body
      dsimp only
      rw [expr_agrees ih expr]
      simp only [body, List.isEmpty_cons, Bool.false_eq_true, if_false]
      rw [runBody]
      rcases expr.evalWith (invokeAt settings remaining) (closure.callScope args)
        (state.enter settings span closure.name args.length) with ⟨outcome, _, state⟩
      cases outcome with
      | error error => exact run_error
      | ok value =>
        exact body_agrees (expr_agrees ih) span closure args scope frames rest value _ state

/-- A run from an expression gives what the recursive evaluation gives. -/
theorem run_eval (settings : Settings) (expr : Expr) (scope : Scope) (state : EvalState) :
    (evaluating expr scope state (state.remaining settings) []).run settings =
      expr.eval settings scope state := by
  rw [expr_agrees (invoke_agrees settings _) expr scope state []]
  exact run_of_end rfl

theorem run_invoke (settings : Settings) (closure : Closure) (args : List Value)
    (span : Option Span) (scope : Scope) (state : EvalState) :
    (invoke settings closure args span scope state (state.remaining settings) []).run settings =
      ⟨(invokeAt settings (state.remaining settings) closure args span state).1, scope,
        (invokeAt settings (state.remaining settings) closure args span state).2⟩ := by
  rw [invoke_agrees settings]
  exact run_of_end rfl

end Machine

/-- Evaluates an expression in a scope, in bounded space for recursive calls. -/
def Expr.evaluate (settings : Settings) (expr : Expr) (scope : Scope) (state : EvalState) :
    Evaluated :=
  (Machine.evaluating expr scope state (state.remaining settings) []).run settings

theorem Expr.evaluate_eq_eval (settings : Settings) (expr : Expr) (scope : Scope)
    (state : EvalState) : expr.evaluate settings scope state = expr.eval settings scope state :=
  Machine.run_eval settings expr scope state

def Value.apply (settings : Settings) (callee : Value) (args : List Value) (state : EvalState) :
    Outcome × EvalState :=
  match callee with
  | .function closure =>
    let ended := (Machine.invoke settings closure args none Scope.empty state
      (state.remaining settings) []).run settings
    (ended.outcome, ended.state)
  | .undefined => (.error ⟨.undefinedCallee, none⟩, state)
  | value => (.error ⟨.notFunction value.typeName, none⟩, state)

theorem Value.apply_eq_call (settings : Settings) (callee : Value) (args : List Value)
    (state : EvalState) : callee.apply settings args state = callee.call settings args state := by
  cases callee with
  | function closure => rw [Value.apply, Machine.run_invoke]; rfl
  | undefined => rfl
  | number value => rfl
  | boolean value => rfl

end Sapling
