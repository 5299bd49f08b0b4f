import Mathlib.Order.Filter.AtTopBot.Basic
import Sapling.Proofs.Runs
import Sapling.Proofs.Trees

/-!
# Every evaluation ends

Evaluation is written once more as the recursion it is: `Expr.evalBy` evaluates one node, given a
way to evaluate the expressions the node needs, and a call looks at the calls open to decide whether
one more is allowed.  Nothing in it says that the recursion ends.

It ends because every expression that a node asks for is smaller, counting first the calls that may
still be opened and then the size of the expression (`evalBy_eventually`).  This rests on calls
being closed again: after a sibling has been evaluated as many calls are open as before.  So from
some amount of fuel on, the recursion gives what evaluation gives (`evalFuel_eventually`).
-/

set_option autoImplicit false

namespace Sapling

/-- A way to evaluate expressions; `none` where it does not end. -/
abbrev Evaluation := Expr → Scope → EvalState → Option Evaluated

/-! ## Evaluation as an open recursion -/

def andThen (first : Option Evaluated) (next : Value → Scope → EvalState → Option Evaluated) :
    Option Evaluated :=
  match first with
  | none => none
  | some ⟨.error error, scope, state⟩ => some ⟨.error error, scope, state⟩
  | some ⟨.ok value, scope, state⟩ => next value scope state

def argumentsBy (self : Evaluation) (next : List Value → Scope → EvalState → Option Evaluated) :
    List Expr → Scope → EvalState → Option Evaluated
  | [], scope, state => next [] scope state
  | arg :: rest, scope, state =>
    andThen (self arg scope state) fun value scope state =>
      argumentsBy self (fun values => next (value :: values)) rest scope state

/-- Evaluates body expressions, each in a scope of its own.  No scope is left at the end, so the one
of the caller is handed through. -/
def bodyBy (self : Evaluation) (closure : Closure) (args : List Value) (caller : Scope) :
    List Expr → Value → EvalState → Option Evaluated
  | [], last, state => some ⟨.ok last, caller, state⟩
  | expr :: rest, _, state =>
    match self expr (closure.callScope args) state with
    | none => none
    | some ⟨.error error, _, state⟩ => some ⟨.error error, caller, state⟩
    | some ⟨.ok value, _, state⟩ => bodyBy self closure args caller rest value state

def invokeBy (settings : Settings) (self : Evaluation) (closure : Closure) (args : List Value)
    (span : Option Span) (caller : Scope) (state : EvalState) : Option Evaluated :=
  if closure.body.isEmpty then some ⟨.error ⟨.emptyBody, span⟩, caller, state⟩
  else if settings.limit ≤ state.tracker.depth then
    some ⟨.error ⟨.tooDeep settings.limit, span⟩, caller, state⟩
  else
    (bodyBy self closure args caller closure.body .undefined
      (state.enter settings span closure.name args.length)).map fun ended =>
        { ended with
          state := ended.state.leave settings span closure.name (errorMessage? ended.outcome) }

/-- Evaluates one node, and by `self` the expressions it needs. -/
def Expr.evalBy (settings : Settings) (self : Evaluation) : Evaluation
  | .hole, scope, state => some ⟨.error ⟨.missingExpression, none⟩, scope, state⟩
  | .literal _ value, scope, state => some ⟨.ok (.number value), scope, state⟩
  | .read _ name, scope, state => some ⟨.ok (scope.get name), scope, state⟩
  | .define _ name value, scope, state =>
    andThen (self value scope state) fun result scope state =>
      let (result, scope) := bindDefined name value.isFunction result scope
      some ⟨.ok result, scope, state⟩
  | .binary span symbol left right, scope, state =>
    andThen (self left scope state) fun a scope state =>
      andThen (self right scope state) fun b scope state =>
        some ⟨operate symbol span.known? a b, scope, state⟩
  | .guarded _ condition consequent, scope, state =>
    andThen (self condition scope state) fun test scope state =>
      if test.isTrue then self consequent scope state else some ⟨.ok (.number 1), scope, state⟩
  | .function _ params body, scope, state =>
    let (value, state) := makeClosure params body scope state
    some ⟨.ok value, scope, state⟩
  | .call span callee args, scope, state =>
    andThen (self callee scope state) fun target scope state =>
      match calleeError? target with
      | some failure => some ⟨.error ⟨failure, span.known?⟩, scope, state⟩
      | none =>
        argumentsBy self (fun values scope state =>
          match target with
          | .function closure => invokeBy settings self closure values span.known? scope state
          | _ => some ⟨.error ⟨noCallee callee, span.known?⟩, scope, state⟩) args scope state

def evalFuel (settings : Settings) : Nat → Evaluation
  | 0 => fun _ _ _ => none
  | fuel + 1 => Expr.evalBy settings (evalFuel settings fuel)

def callFuel (settings : Settings) (fuel : Nat) (callee : Value) (args : List Value)
    (state : EvalState) : Option (Outcome × EvalState) :=
  match callee with
  | .function closure =>
    (invokeBy settings (evalFuel settings fuel) closure args none Scope.empty state).map
      fun ended => (ended.outcome, ended.state)
  | .undefined => some (.error ⟨.undefinedCallee, none⟩, state)
  | value => some (.error ⟨.notFunction value.typeName, none⟩, state)

def executeFromFuel (settings : Settings) (fuel : Nat) :
    Nat → List Expr → Scope → EvalState → Option Execution
  | _, [], scope, state => some ⟨[], none, scope, state⟩
  | index, statement :: rest, scope, state =>
    match evalFuel settings fuel statement scope (state.openStatement settings index statement) with
    | none => none
    | some ⟨.error error, scope, state⟩ => some ⟨[], some error, scope, state⟩
    | some ⟨.ok value, scope, state⟩ =>
      (executeFromFuel settings fuel (index + 1) rest scope
        (state.closeStatement settings index statement)).map fun after =>
          { after with values := value :: after.values }

def executeFuel (settings : Settings) (fuel : Nat) (program : Program) (scope : Scope)
    (nextId : Nat) : Option Execution :=
  let place := program.span.known?
  let start := (EvalState.start nextId).emit settings place .runStart
  (executeFromFuel settings fuel 0 program.statements scope start).map fun execution =>
    { execution with
      state := execution.state.emit settings place
        (.runEnd (execution.error.map EvalError.message)) }

/-! ## Evaluation solves the recursion -/

def evaluation (settings : Settings) : Evaluation :=
  fun expr scope state => some (expr.eval settings scope state)

theorem evaluation_apply (settings : Settings) (expr : Expr) (scope : Scope) (state : EvalState) :
    evaluation settings expr scope state = some (expr.eval settings scope state) := rfl

theorem Expr.eval_depth (settings : Settings) (expr : Expr) (scope : Scope) (state : EvalState) :
    (expr.eval settings scope state).state.tracker.depth = state.tracker.depth := by
  rw [← Expr.evaluate_eq_eval]
  exact expr.evaluate_depth settings scope state

section Solution
variable (settings : Settings)

theorem evalWith_eq_eval {state later : EvalState}
    (depth : later.tracker.depth = state.tracker.depth) (expr : Expr) (scope : Scope) :
    expr.evalWith (invokeAt settings (state.remaining settings)) scope later =
      expr.eval settings scope later := by
  unfold Expr.eval EvalState.remaining
  rw [depth]

theorem evalArgs_depth (base : EvalState) (args : List Expr) :
    ∀ scope state, state.tracker.depth = base.tracker.depth →
      (evalArgs (invokeAt settings (base.remaining settings)) args scope state).2.2.tracker.depth =
        base.tracker.depth := by
  induction args with
  | nil =>
    intro scope state depth
    rw [evalArgs]
    exact depth
  | cons arg rest ih =>
    intro scope state depth
    have first := arg.eval_depth settings scope state
    rw [evalArgs, evalWith_eq_eval settings depth]
    generalize arg.eval settings scope state = evaluated at first ⊢
    rcases evaluated with ⟨outcome, after, later⟩
    cases outcome with
    | error error => exact first.trans depth
    | ok value =>
      have others := ih after later (first.trans depth)
      dsimp only
      generalize evalArgs (invokeAt settings (base.remaining settings)) rest after later = evaluated
        at others ⊢
      rcases evaluated with ⟨outcome, after, later⟩
      cases outcome <;> exact others

theorem argumentsBy_evaluation (base : EvalState) (args : List Expr) :
    ∀ next scope state, state.tracker.depth = base.tracker.depth →
      argumentsBy (evaluation settings) next args scope state =
        match evalArgs (invokeAt settings (base.remaining settings)) args scope state with
        | (.error error, scope, state) => some ⟨.error error, scope, state⟩
        | (.ok values, scope, state) => next values scope state := by
  induction args with
  | nil =>
    intro next scope state depth
    rw [argumentsBy, evalArgs]
  | cons arg rest ih =>
    intro next scope state depth
    have first := arg.eval_depth settings scope state
    rw [argumentsBy, evalArgs, evalWith_eq_eval settings depth, evaluation_apply]
    generalize arg.eval settings scope state = evaluated at first ⊢
    rcases evaluated with ⟨outcome, after, later⟩
    cases outcome with
    | error error => rfl
    | ok value =>
      simp only [andThen]
      refine (ih _ after later (first.trans depth)).trans ?_
      rcases evalArgs (invokeAt settings (base.remaining settings)) rest after later with
        ⟨outcome, after, later⟩
      cases outcome <;> rfl

theorem bodyBy_evaluation (base : EvalState) (closure : Closure) (args : List Value)
    (caller : Scope) (exprs : List Expr) :
    ∀ last state, state.tracker.depth = base.tracker.depth →
      bodyBy (evaluation settings) closure args caller exprs last state =
        let ended := runBody (invokeAt settings (base.remaining settings)) closure args exprs last
          state
        some ⟨ended.1, caller, ended.2⟩ := by
  induction exprs with
  | nil =>
    intro last state depth
    rfl
  | cons expr rest ih =>
    intro last state depth
    have first := expr.eval_depth settings (closure.callScope args) state
    rw [bodyBy, runBody, evalWith_eq_eval settings depth, evaluation_apply]
    generalize expr.eval settings (closure.callScope args) state = evaluated at first ⊢
    rcases evaluated with ⟨outcome, after, later⟩
    cases outcome with
    | error error => rfl
    | ok value => exact ih value later (first.trans depth)

theorem invokeBy_evaluation (closure : Closure) (args : List Value) (span : Option Span)
    (caller : Scope) (state : EvalState) :
    invokeBy settings (evaluation settings) closure args span caller state =
      let ended := invokeAt settings (state.remaining settings) closure args span state
      some ⟨ended.1, caller, ended.2⟩ := by
  unfold invokeBy invokeAt
  by_cases empty : closure.body.isEmpty = true
  · simp [empty]
  · rw [if_neg empty, if_neg empty]
    by_cases full : settings.limit ≤ state.tracker.depth
    · have noneLeft : state.remaining settings = 0 := Nat.sub_eq_zero_of_le full
      rw [if_pos full, noneLeft]
    · let entered := state.enter settings span closure.name args.length
      have depth : entered.tracker.depth = state.tracker.depth + 1 := by
        simp [entered, Tracker.enter]
      have left : state.remaining settings = entered.remaining settings + 1 := by
        simp only [EvalState.remaining, depth]
        omega
      rw [if_neg full, left, bodyBy_evaluation settings entered closure args caller closure.body
        .undefined entered rfl]
      rfl

/-- Evaluation solves its own recursion: the calls it allows are those that the calls open allow. -/
theorem evalBy_evaluation (expr : Expr) (scope : Scope) (state : EvalState) :
    expr.evalBy settings (evaluation settings) scope state =
      some (expr.eval settings scope state) := by
  cases expr with
  | hole => rfl
  | literal span value => rfl
  | read span name => rfl
  | function span params body => rfl
  | define span name value =>
    rw [Expr.evalBy, Expr.eval, Expr.evalWith, evalWith_eq_eval settings rfl value,
      evaluation_apply]
    rcases value.eval settings scope state with ⟨outcome, after, later⟩
    cases outcome <;> rfl
  | binary span symbol left right =>
    have first := left.eval_depth settings scope state
    rw [Expr.evalBy, Expr.eval, Expr.evalWith, evalWith_eq_eval settings rfl left, evaluation_apply]
    generalize left.eval settings scope state = evaluated at first ⊢
    rcases evaluated with ⟨outcome, after, later⟩
    cases outcome with
    | error error => rfl
    | ok a =>
      simp only [andThen]
      rw [evalWith_eq_eval settings first right, evaluation_apply]
      rcases right.eval settings after later with ⟨outcome, after, later⟩
      cases outcome <;> rfl
  | guarded span condition consequent =>
    have first := condition.eval_depth settings scope state
    rw [Expr.evalBy, Expr.eval, Expr.evalWith, evalWith_eq_eval settings rfl condition,
      evaluation_apply]
    generalize condition.eval settings scope state = evaluated at first ⊢
    rcases evaluated with ⟨outcome, after, later⟩
    cases outcome with
    | error error => rfl
    | ok test =>
      simp only [andThen]
      rw [evalWith_eq_eval settings first consequent, evaluation_apply]
      split <;> rfl
  | call span callee args =>
    have first := callee.eval_depth settings scope state
    rw [Expr.evalBy, Expr.eval, Expr.evalWith, evalWith_eq_eval settings rfl callee,
      evaluation_apply]
    generalize callee.eval settings scope state = evaluated at first ⊢
    rcases evaluated with ⟨outcome, after, later⟩
    cases outcome with
    | error error => rfl
    | ok target =>
      simp only [andThen]
      cases calleeError? target with
      | some failure => rfl
      | none =>
        have argsDepth := evalArgs_depth settings state args after later first
        refine (argumentsBy_evaluation settings state args _ after later first).trans ?_
        generalize evalArgs (invokeAt settings (state.remaining settings)) args after later =
          evaluated at argsDepth ⊢
        rcases evaluated with ⟨outcome, after, later⟩
        cases outcome with
        | error error => rfl
        | ok values =>
          cases target with
          | function closure =>
            have left : later.remaining settings = state.remaining settings := by
              unfold EvalState.remaining
              rw [argsDepth]
            exact (invokeBy_evaluation settings closure values span.known? after later).trans
              (by rw [left])
          | undefined => rfl
          | number value => rfl
          | boolean value => rfl

end Solution

/-! ## Calls are closed again -/

def LeavesDepth (depth : Nat) (result : Option Evaluated) : Prop :=
  ∀ ended, result = some ended → ended.state.tracker.depth = depth

def RestoresDepth (self : Evaluation) : Prop :=
  ∀ expr scope state, LeavesDepth state.tracker.depth (self expr scope state)

theorem leavesDepth_some {depth : Nat} {outcome : Outcome} {scope : Scope} {state : EvalState}
    (same : state.tracker.depth = depth) : LeavesDepth depth (some ⟨outcome, scope, state⟩) := by
  intro ended result
  cases result
  exact same

theorem andThen_depth {depth : Nat} {first : Option Evaluated}
    {next : Value → Scope → EvalState → Option Evaluated} (left : LeavesDepth depth first)
    (later : ∀ value scope state, state.tracker.depth = depth →
      LeavesDepth depth (next value scope state)) :
    LeavesDepth depth (andThen first next) := by
  unfold andThen
  split
  · intro ended result
    cases result
  · exact leavesDepth_some (left _ rfl)
  · exact later _ _ _ (left _ rfl)

section Restoring
variable {settings : Settings} {self : Evaluation} (restores : RestoresDepth self) {depth : Nat}

include restores

theorem argumentsBy_depth (args : List Expr) :
    ∀ (next : List Value → Scope → EvalState → Option Evaluated) scope state,
      state.tracker.depth = depth →
      (∀ values scope state, state.tracker.depth = depth →
        LeavesDepth depth (next values scope state)) →
      LeavesDepth depth (argumentsBy self next args scope state) := by
  induction args with
  | nil =>
    intro next scope state same later
    exact later [] scope state same
  | cons arg rest ih =>
    intro next scope state same later
    refine andThen_depth (same ▸ restores arg scope state) fun value scope state same => ?_
    exact ih _ scope state same fun values => later (value :: values)

theorem bodyBy_depth (closure : Closure) (args : List Value) (caller : Scope)
    (exprs : List Expr) : ∀ last state, state.tracker.depth = depth →
      LeavesDepth depth (bodyBy self closure args caller exprs last state) := by
  induction exprs with
  | nil =>
    intro last state same
    exact leavesDepth_some same
  | cons expr rest ih =>
    intro last state same
    have first := restores expr (closure.callScope args) state
    rw [bodyBy]
    split
    · intro ended result
      cases result
    · rename_i result
      exact leavesDepth_some ((first _ result).trans same)
    · rename_i result
      exact ih _ _ ((first _ result).trans same)

theorem invokeBy_depth (closure : Closure) (args : List Value) (span : Option Span)
    (caller : Scope) (state : EvalState) :
    LeavesDepth state.tracker.depth (invokeBy settings self closure args span caller state) := by
  unfold invokeBy
  split
  · exact leavesDepth_some rfl
  · split
    · exact leavesDepth_some rfl
    · intro ended result
      obtain ⟨body, ran, rfl⟩ := Option.map_eq_some_iff.mp result
      have bodyDepth := bodyBy_depth restores closure args caller closure.body .undefined
        (state.enter settings span closure.name args.length) rfl body ran
      rw [EvalState.enter_tracker] at bodyDepth
      simp only [EvalState.leave_tracker, Tracker.leave, bodyDepth, Tracker.enter]
      omega

theorem evalBy_restoresDepth : RestoresDepth (Expr.evalBy settings self) := by
  intro expr scope state
  cases expr with
  | hole => exact leavesDepth_some rfl
  | literal span value => exact leavesDepth_some rfl
  | read span name => exact leavesDepth_some rfl
  | function span params body => exact leavesDepth_some rfl
  | define span name value =>
    exact andThen_depth (restores value scope state) fun _ _ _ same => leavesDepth_some same
  | binary span symbol left right =>
    refine andThen_depth (restores left scope state) fun a scope state same => ?_
    exact andThen_depth (same ▸ restores right scope state) fun _ _ _ same => leavesDepth_some same
  | guarded span condition consequent =>
    refine andThen_depth (restores condition scope state) fun test scope state same => ?_
    split
    · exact same ▸ restores consequent scope state
    · exact leavesDepth_some same
  | call span callee args =>
    refine andThen_depth (restores callee scope state) fun target scope state same => ?_
    split
    · exact leavesDepth_some same
    · refine argumentsBy_depth restores args _ scope state same fun values scope state same => ?_
      split
      · exact same ▸ invokeBy_depth restores _ values span.known? scope state
      · exact leavesDepth_some same

end Restoring

theorem evaluation_restoresDepth (settings : Settings) : RestoresDepth (evaluation settings) := by
  intro expr scope state ended result
  cases result
  exact expr.eval_depth settings scope state

/-! ## What a node asks for is lighter -/

/-- What it takes to evaluate an expression: the calls that may still be opened, then its size. -/
def weight (settings : Settings) (expr : Expr) (state : EvalState) : Nat × Nat :=
  (settings.limit - state.tracker.depth, expr.size)

def Lighter (settings : Settings) (request other : Expr × EvalState) : Prop :=
  Prod.Lex (· < ·) (· < ·) (weight settings request.1 request.2) (weight settings other.1 other.2)

theorem lighter_wellFounded (settings : Settings) : WellFounded (Lighter settings) :=
  InvImage.wf (fun request : Expr × EvalState => weight settings request.1 request.2)
    (WellFounded.prod_lex Nat.lt_wfRel.wf Nat.lt_wfRel.wf)

theorem lighter_child {settings : Settings} {expr child : Expr} {state later : EvalState}
    (member : child ∈ expr.children) (depth : later.tracker.depth = state.tracker.depth) :
    Lighter settings (child, later) (expr, state) := by
  unfold Lighter weight
  rw [depth]
  exact Prod.Lex.right _ (Expr.size_child member)

theorem lighter_deeper {settings : Settings} {expr other : Expr} {state later : EvalState}
    (allowed : state.tracker.depth < settings.limit)
    (depth : later.tracker.depth = state.tracker.depth + 1) :
    Lighter settings (other, later) (expr, state) := by
  refine Prod.Lex.left _ _ ?_
  simp only [depth]
  omega

section Settling
variable {ι : Type} {filter : Filter ι} {selves : ι → Evaluation} {settled : Evaluation}
  {settings : Settings}

theorem andThen_eventually {firsts : ι → Option Evaluated} {first : Option Evaluated}
    {nexts : ι → Value → Scope → EvalState → Option Evaluated}
    {next : Value → Scope → EvalState → Option Evaluated}
    (firstSettles : ∀ᶠ i in filter, firsts i = first)
    (nextSettles : ∀ value scope state, first = some ⟨.ok value, scope, state⟩ →
      ∀ᶠ i in filter, nexts i value scope state = next value scope state) :
    ∀ᶠ i in filter, andThen (firsts i) (nexts i) = andThen first next := by
  match first, firstSettles, nextSettles with
  | none, firstSettles, _ =>
    filter_upwards [firstSettles] with i same
    rw [same]
    rfl
  | some ⟨.error error, scope, state⟩, firstSettles, _ =>
    filter_upwards [firstSettles] with i same
    rw [same]
    rfl
  | some ⟨.ok value, scope, state⟩, firstSettles, nextSettles =>
    filter_upwards [firstSettles, nextSettles value scope state rfl] with i same nextSame
    rw [same]
    exact nextSame

theorem argumentsBy_eventually (restores : RestoresDepth settled) {depth : Nat}
    {args : List Expr}
    (argsSettle : ∀ arg ∈ args, ∀ scope state, state.tracker.depth = depth →
      ∀ᶠ i in filter, selves i arg scope state = settled arg scope state) :
    ∀ (nexts : ι → List Value → Scope → EvalState → Option Evaluated)
      (next : List Value → Scope → EvalState → Option Evaluated),
      (∀ values scope state, state.tracker.depth = depth →
        ∀ᶠ i in filter, nexts i values scope state = next values scope state) →
      ∀ scope state, state.tracker.depth = depth →
        ∀ᶠ i in filter, argumentsBy (selves i) (nexts i) args scope state =
          argumentsBy settled next args scope state := by
  induction args with
  | nil =>
    intro nexts next nextSettles scope state same
    exact nextSettles [] scope state same
  | cons arg rest ih =>
    intro nexts next nextSettles scope state same
    refine andThen_eventually (argsSettle arg List.mem_cons_self scope state same) ?_
    intro value after later result
    have laterDepth := (restores arg scope state _ result).trans same
    exact ih (fun other member => argsSettle other (List.mem_cons_of_mem arg member)) _ _
      (fun values => nextSettles (value :: values)) after later laterDepth

theorem bodyBy_eventually (restores : RestoresDepth settled) {depth : Nat} (closure : Closure)
    (args : List Value) (caller : Scope)
    (settles : ∀ expr scope state, state.tracker.depth = depth →
      ∀ᶠ i in filter, selves i expr scope state = settled expr scope state) (exprs : List Expr) :
    ∀ last state, state.tracker.depth = depth →
      ∀ᶠ i in filter, bodyBy (selves i) closure args caller exprs last state =
        bodyBy settled closure args caller exprs last state := by
  induction exprs with
  | nil =>
    intro last state same
    exact Filter.Eventually.of_forall fun _ => rfl
  | cons expr rest ih =>
    intro last state same
    have first := settles expr (closure.callScope args) state same
    have firstDepth := restores expr (closure.callScope args) state
    simp only [bodyBy]
    generalize settled expr (closure.callScope args) state = result at first firstDepth ⊢
    match result, first, firstDepth with
    | none, first, _ =>
      filter_upwards [first] with i same
      rw [same]
    | some ⟨.error error, after, later⟩, first, _ =>
      filter_upwards [first] with i same
      rw [same]
    | some ⟨.ok value, after, later⟩, first, firstDepth =>
      filter_upwards [first, ih value later ((firstDepth _ rfl).trans same)] with i same restSame
      rw [same]
      exact restSame

theorem invokeBy_eventually (restores : RestoresDepth settled) (closure : Closure)
    (args : List Value) (span : Option Span) (caller : Scope) (state : EvalState)
    (settles : state.tracker.depth < settings.limit → ∀ expr scope later,
      later.tracker.depth = state.tracker.depth + 1 →
        ∀ᶠ i in filter, selves i expr scope later = settled expr scope later) :
    ∀ᶠ i in filter, invokeBy settings (selves i) closure args span caller state =
      invokeBy settings settled closure args span caller state := by
  unfold invokeBy
  by_cases empty : closure.body.isEmpty = true
  · simp [empty]
  · by_cases full : settings.limit ≤ state.tracker.depth
    · simp [empty, full]
    · simp only [if_neg empty, if_neg full]
      have depth : (state.enter settings span closure.name args.length).tracker.depth =
          state.tracker.depth + 1 := by
        simp [Tracker.enter]
      have allowed := settles (Nat.lt_of_not_le full)
      filter_upwards [bodyBy_eventually restores closure args caller allowed closure.body .undefined
        _ depth] with i same
      rw [same]

theorem evalBy_eventually (restores : RestoresDepth settled) (expr : Expr) (scope : Scope)
    (state : EvalState)
    (settles : ∀ other after later, Lighter settings (other, later) (expr, state) →
      ∀ᶠ i in filter, selves i other after later = settled other after later) :
    ∀ᶠ i in filter, expr.evalBy settings (selves i) scope state =
      expr.evalBy settings settled scope state := by
  have childSettles : ∀ child ∈ expr.children, ∀ after later,
      later.tracker.depth = state.tracker.depth →
        ∀ᶠ i in filter, selves i child after later = settled child after later :=
    fun child member after later depth => settles child after later (lighter_child member depth)
  have same : ∀ result : Option Evaluated, ∀ᶠ _ in filter, result = result :=
    fun _ => Filter.Eventually.of_forall fun _ => rfl
  cases expr with
  | hole => exact same _
  | literal span value => exact same _
  | read span name => exact same _
  | function span params body => exact same _
  | define span name value =>
    exact andThen_eventually (childSettles value (by simp [Expr.children]) scope state rfl)
      fun _ _ _ _ => same _
  | binary span symbol left right =>
    refine andThen_eventually (childSettles left (by simp [Expr.children]) scope state rfl) ?_
    intro a after later result
    exact andThen_eventually (childSettles right (by simp [Expr.children]) after later
      (restores left scope state _ result)) fun _ _ _ _ => same _
  | guarded span condition consequent =>
    refine andThen_eventually (childSettles condition (by simp [Expr.children]) scope state rfl) ?_
    intro test after later result
    by_cases holds : test.isTrue = true
    · simp only [if_pos holds]
      exact childSettles consequent (by simp [Expr.children]) after later
        (restores condition scope state _ result)
    · simp [holds]
  | call span callee args =>
    refine andThen_eventually (childSettles callee (by simp [Expr.children]) scope state rfl) ?_
    intro target after later result
    cases calleeError? target with
    | some failure => exact same _
    | none =>
      refine argumentsBy_eventually restores
        (fun arg member => childSettles arg (by simp [Expr.children, member])) _ _ ?_ after later
        (restores callee scope state _ result)
      intro values after later depth
      cases target with
      | function closure =>
        refine invokeBy_eventually restores closure values span.known? after later ?_
        intro allowed expr scope deeper deeperDepth
        exact settles expr scope deeper
          (lighter_deeper (depth ▸ allowed) (deeperDepth.trans (by rw [depth])))
      | undefined => exact same _
      | number value => exact same _
      | boolean value => exact same _

end Settling

/-! ## Enough fuel -/

theorem evalFuel_eventually (settings : Settings) (request : Expr × EvalState) :
    ∀ scope, ∀ᶠ fuel in Filter.atTop, evalFuel settings fuel request.1 scope request.2 =
      evaluation settings request.1 scope request.2 := by
  induction request using (lighter_wellFounded settings).induction with
  | _ request ih =>
    intro scope
    have node := evalBy_eventually (evaluation_restoresDepth settings) request.1 scope request.2
      fun other after later lighter => ih (other, later) lighter after
    -- the node takes one more than all that it asks for
    obtain ⟨enough, holds⟩ := Filter.eventually_atTop.mp node
    refine Filter.eventually_atTop.mpr ⟨enough + 1, fun fuel more => ?_⟩
    obtain ⟨less, rfl⟩ := Nat.exists_eq_add_of_le' (Nat.le_of_add_left_le more)
    exact (holds less (Nat.le_of_succ_le_succ more)).trans
      (evalBy_evaluation settings request.1 scope request.2)

theorem callFuel_eventually (settings : Settings) (callee : Value) (args : List Value)
    (state : EvalState) :
    ∀ᶠ fuel in Filter.atTop, callFuel settings fuel callee args state =
      some (callee.call settings args state) := by
  cases callee with
  | function closure =>
    have settles : ∀ᶠ fuel in Filter.atTop,
        invokeBy settings (evalFuel settings fuel) closure args none Scope.empty state =
          invokeBy settings (evaluation settings) closure args none Scope.empty state :=
      invokeBy_eventually (evaluation_restoresDepth settings) closure args none Scope.empty state
        fun _ expr scope later _ => evalFuel_eventually settings (expr, later) scope
    filter_upwards [settles] with fuel same
    rw [callFuel, same, invokeBy_evaluation]
    rfl
  | undefined => exact Filter.Eventually.of_forall fun _ => rfl
  | number value => exact Filter.Eventually.of_forall fun _ => rfl
  | boolean value => exact Filter.Eventually.of_forall fun _ => rfl

theorem executeFromFuel_eventually (settings : Settings) (statements : List Expr) :
    ∀ index scope state, ∀ᶠ fuel in Filter.atTop,
      executeFromFuel settings fuel index statements scope state =
        some (executeFrom settings index statements scope state) := by
  induction statements with
  | nil =>
    intro index scope state
    exact Filter.Eventually.of_forall fun _ => rfl
  | cons statement rest ih =>
    intro index scope state
    have first := evalFuel_eventually settings
      (statement, state.openStatement settings index statement) scope
    cases evaluated : statement.evaluate settings scope
        (state.openStatement settings index statement) with
    | mk outcome after later =>
      simp only [evaluation_apply, ← Expr.evaluate_eq_eval, evaluated] at first
      cases outcome with
      | error error =>
        filter_upwards [first] with fuel same
        rw [executeFrom_error rest evaluated, executeFromFuel, same]
      | ok value =>
        have following := ih (index + 1) after (later.closeStatement settings index statement)
        filter_upwards [first, following] with fuel same others
        rw [executeFrom_ok rest evaluated, executeFromFuel, same]
        simp only [others, Option.map_some]

theorem executeFuel_eventually (settings : Settings) (program : Program) (scope : Scope)
    (nextId : Nat) :
    ∀ᶠ fuel in Filter.atTop, executeFuel settings fuel program scope nextId =
      some (program.execute settings scope nextId) := by
  filter_upwards [executeFromFuel_eventually settings program.statements 0 scope
    ((EvalState.start nextId).emit settings program.span.known? .runStart)] with fuel same
  simp only [executeFuel, same, Option.map_some, Program.execute]

/-- A node's evaluation depends on nothing but lighter evaluations. -/
theorem evalBy_congr {settings : Settings} {self other : Evaluation}
    (restores : RestoresDepth self) {expr : Expr} {scope : Scope} {state : EvalState}
    (agree : ∀ inner after later, Lighter settings (inner, later) (expr, state) →
      self inner after later = other inner after later) :
    expr.evalBy settings self scope state = expr.evalBy settings other scope state := by
  have settles : ∀ᶠ _ in (pure () : Filter Unit),
      expr.evalBy settings other scope state = expr.evalBy settings self scope state :=
    evalBy_eventually restores expr scope state fun inner after later lighter =>
      Filter.Eventually.of_forall fun _ => (agree inner after later lighter).symm
  exact (Filter.eventually_pure.mp settles).symm

/-- Every evaluation, call and execution ends, in whatever scope and state and whatever limit is
set.  The recursion that evaluates a node is well founded: ways of evaluating that agree on all
lighter expressions give the node the same outcome, provided that calls are closed again, and then
they are closed again after the node.  Therefore some amount of fuel is enough for it, and more
gives the same. -/
theorem evaluation_ends (setting : Int) (tracing : Bool) (runId : String) :
    let settings : Settings := ⟨effectiveDepth setting, tracing, runId⟩
    WellFounded (Lighter settings) ∧
      (∀ self other : Evaluation, RestoresDepth self →
        RestoresDepth (Expr.evalBy settings self) ∧
          ∀ expr scope state,
            (∀ inner after later, Lighter settings (inner, later) (expr, state) →
              self inner after later = other inner after later) →
            expr.evalBy settings self scope state = expr.evalBy settings other scope state) ∧
      (∀ expr scope state, ∃ enough, ∀ fuel, enough ≤ fuel →
        evalFuel settings fuel expr scope state = some (expr.evaluate settings scope state)) ∧
      (∀ callee args state, ∃ enough, ∀ fuel, enough ≤ fuel →
        callFuel settings fuel callee args state = some (callee.apply settings args state)) ∧
      ∀ program scope nextId, ∃ enough, ∀ fuel, enough ≤ fuel →
        executeFuel settings fuel program scope nextId =
          some (program.execute settings scope nextId) := by
  intro settings
  refine ⟨lighter_wellFounded settings, ?_, ?_, ?_, ?_⟩
  · intro self other restores
    exact ⟨evalBy_restoresDepth restores, fun expr scope state agree => evalBy_congr restores agree⟩
  · intro expr scope state
    rw [Expr.evaluate_eq_eval]
    exact Filter.eventually_atTop.mp (evalFuel_eventually settings (expr, state) scope)
  · intro callee args state
    rw [Value.apply_eq_call]
    exact Filter.eventually_atTop.mp (callFuel_eventually settings callee args state)
  · intro program scope nextId
    exact Filter.eventually_atTop.mp (executeFuel_eventually settings program scope nextId)

theorem evaluation_ends_calling_itself :
    let settings : Settings := ⟨effectiveDepth (-1), false, ""⟩
    let caller : Closure := .mk 0 "f" [] [.call Span.zero (.read Span.zero "f") []] []
    RestoresDepth (Expr.evalBy settings (evaluation settings)) ∧
      ∃ enough, ∀ fuel, enough ≤ fuel →
        callFuel settings fuel (.function caller) [] (EvalState.start 1) =
          some ((Value.function caller).apply settings [] (EvalState.start 1)) := by
  intro settings caller
  obtain ⟨-, recursion, -, calls, -⟩ := evaluation_ends (-1) false ""
  exact ⟨(recursion _ (evaluation settings) (evaluation_restoresDepth settings)).1,
    calls (.function caller) [] (EvalState.start 1)⟩

end Sapling
