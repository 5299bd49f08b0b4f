import Mathlib.Data.List.Forall2
import Sapling.Proofs.Runs

/-!
# Two evaluations side by side

Several laws compare two evaluations of one expression: in scopes that differ, with other identities
for the functions that are made, or after other work has been done.  Such a comparison is a
`Simulation`: it says which functions, scopes and states of the two evaluations correspond, and has
to check only what making a function, binding a name and opening or closing a call do to them.  That
all of evaluation keeps the correspondence is proved here once, by recursion on the expression
(`Simulation.evalWith_keeps`) and on the calls that may still be nested
(`Simulation.invokeAt_keeps`).

Scopes correspond so far as certain names are read in them, since an evaluation depends on no
others.
-/

set_option autoImplicit false

namespace Sapling

/-! ## Names that are read -/

mutual

def Expr.reads : Expr → List String
  | .hole | .literal .. => []
  | .read _ name => [name]
  | .define _ _ value => value.reads
  | .binary _ _ left right => left.reads ++ right.reads
  | .guarded _ condition consequent => condition.reads ++ consequent.reads
  | .function _ _ body => readsAll body
  | .call _ callee args => callee.reads ++ readsAll args

def Expr.readsAll : List Expr → List String
  | [] => []
  | expr :: rest => expr.reads ++ readsAll rest

end

/-! ## Evaluation as a sequence -/

def Evaluated.andThen (first : Evaluated) (next : Value → Scope → EvalState → Evaluated) :
    Evaluated :=
  match first with
  | ⟨.error error, scope, state⟩ => ⟨.error error, scope, state⟩
  | ⟨.ok value, scope, state⟩ => next value scope state

def withArgs (evaluated : Except EvalError (List Value) × Scope × EvalState)
    (next : List Value → Scope → EvalState → Evaluated) : Evaluated :=
  match evaluated with
  | (.error error, scope, state) => ⟨.error error, scope, state⟩
  | (.ok values, scope, state) => next values scope state

def callTarget (invoke : Invoke) (span : Option Span) (callee : Expr) (target : Value)
    (values : List Value) (scope : Scope) (state : EvalState) : Evaluated :=
  match target with
  | .function closure =>
    ⟨(invoke closure values span state).1, scope, (invoke closure values span state).2⟩
  | _ => ⟨.error ⟨noCallee callee, span⟩, scope, state⟩

section Equations
variable (invoke : Invoke) (span : Span) (scope : Scope) (state : EvalState)

theorem Expr.evalWith_define (name : String) (value : Expr) :
    (Expr.define span name value).evalWith invoke scope state =
      (value.evalWith invoke scope state).andThen fun result scope state =>
        ⟨.ok (bindDefined name value.isFunction result scope).1,
          (bindDefined name value.isFunction result scope).2, state⟩ := by
  rw [Expr.evalWith]
  rcases value.evalWith invoke scope state with ⟨outcome, scope, state⟩
  cases outcome <;> rfl

theorem Expr.evalWith_binary (symbol : String) (left right : Expr) :
    (Expr.binary span symbol left right).evalWith invoke scope state =
      (left.evalWith invoke scope state).andThen fun a scope state =>
        (right.evalWith invoke scope state).andThen fun b scope state =>
          ⟨operate symbol span.known? a b, scope, state⟩ := by
  rw [Expr.evalWith]
  rcases left.evalWith invoke scope state with ⟨outcome, scope, state⟩
  cases outcome with
  | error error => rfl
  | ok a =>
    cases second : right.evalWith invoke scope state with
    | mk outcome after later => cases outcome <;> simp only [Evaluated.andThen, second]

theorem Expr.evalWith_guarded (condition consequent : Expr) :
    (Expr.guarded span condition consequent).evalWith invoke scope state =
      (condition.evalWith invoke scope state).andThen fun test scope state =>
        if test.isTrue then consequent.evalWith invoke scope state
        else ⟨.ok (.number 1), scope, state⟩ := by
  rw [Expr.evalWith]
  rcases condition.evalWith invoke scope state with ⟨outcome, scope, state⟩
  cases outcome <;> rfl

theorem Expr.evalWith_call (callee : Expr) (args : List Expr) :
    (Expr.call span callee args).evalWith invoke scope state =
      (callee.evalWith invoke scope state).andThen fun target scope state =>
        match calleeError? target with
        | some failure => ⟨.error ⟨failure, span.known?⟩, scope, state⟩
        | none =>
          withArgs (evalArgs invoke args scope state)
            (callTarget invoke span.known? callee target) := by
  rw [Expr.evalWith]
  rcases callee.evalWith invoke scope state with ⟨outcome, scope, state⟩
  cases outcome with
  | error error => rfl
  | ok target =>
    simp only [Evaluated.andThen]
    cases calleeError? target with
    | some failure => rfl
    | none =>
      rcases evalArgs invoke args scope state with ⟨outcome, scope, state⟩
      cases outcome with
      | error error => rfl
      | ok values => cases target <;> rfl

theorem withArgs_cons (arg : Expr) (rest : List Expr)
    (next : List Value → Scope → EvalState → Evaluated) :
    withArgs (evalArgs invoke (arg :: rest) scope state) next =
      (arg.evalWith invoke scope state).andThen fun value scope state =>
        withArgs (evalArgs invoke rest scope state) fun values => next (value :: values) := by
  rw [evalArgs]
  rcases arg.evalWith invoke scope state with ⟨outcome, scope, state⟩
  cases outcome with
  | error error => rfl
  | ok value =>
    simp only [Evaluated.andThen]
    rcases evalArgs invoke rest scope state with ⟨outcome, scope, state⟩
    cases outcome <;> rfl

end Equations

/-! ## What corresponds -/

inductive Value.Lift (same : Closure → Closure → Prop) : Value → Value → Prop
  | undefined : Lift same .undefined .undefined
  | number (value : Float) : Lift same (.number value) (.number value)
  | boolean (value : Bool) : Lift same (.boolean value) (.boolean value)
  | function {first second : Closure} (functions : same first second) :
      Lift same (.function first) (.function second)

/-- Both fail with the same error, or both give results that correspond. -/
inductive Outcomes {α β : Type} (same : α → β → Prop) :
    Except EvalError α → Except EvalError β → Prop
  | ok {first : α} {second : β} (results : same first second) :
      Outcomes same (.ok first) (.ok second)
  | error (error : EvalError) : Outcomes same (.error error) (.error error)

theorem Outcomes.message {α β : Type} {same : α → β → Prop} {x : Except EvalError α}
    {y : Except EvalError β} (outcomes : Outcomes same x y) :
    errorMessage? x = errorMessage? y := by
  cases outcomes <;> rfl

/-- A correspondence between evaluations under two settings that allow the same calls. -/
structure Simulation (first second : Settings) where
  closure : Closure → Closure → Prop
  /-- Scopes that correspond so far as these names are read. -/
  scope : List String → Scope → Scope → Prop
  state : EvalState → EvalState → Prop
  limit : first.limit = second.limit
  depth {a b : EvalState} : state a b → a.tracker.depth = b.tracker.depth
  code {c d : Closure} : closure c d → c.name = d.name ∧ c.params = d.params ∧ c.body = d.body
  snapshot {c d : Closure} : closure c d → scope (Expr.readsAll c.body) c.snapshot d.snapshot
  named {c d : Closure} (name : String) : closure c d → closure (c.named name) (d.named name)
  get {names : List String} {s t : Scope} {name : String} :
    scope names s t → name ∈ names → Value.Lift closure (s.get name) (t.get name)
  bind {names : List String} {s t : Scope} (name : String) {v w : Value} :
    scope names s t → Value.Lift closure v w → scope names (s.bind name v) (t.bind name w)
  make {names : List String} {s t : Scope} {a b : EvalState} (params : List String)
    {body : List Expr} : Expr.readsAll body ⊆ names → scope names s t → state a b →
      closure (.mk a.nextId "" params body s) (.mk b.nextId "" params body t)
  fresh {a b : EvalState} : state a b →
    state { a with nextId := a.nextId + 1 } { b with nextId := b.nextId + 1 }
  enter {a b : EvalState} (span : Option Span) (name : String) (args : Nat) : state a b →
    state (a.enter first span name args) (b.enter second span name args)
  leave {a b : EvalState} (span : Option Span) (name : String) (error : Option String) :
    state a b → state (a.leave first span name error) (b.leave second span name error)

/-! ## Values that correspond are treated alike -/

section Values
variable {same : Closure → Closure → Prop} {v w : Value}

theorem Value.Lift.isTrue_eq (values : Value.Lift same v w) : v.isTrue = w.isTrue := by
  cases values <;> rfl

theorem Value.Lift.operand_eq (values : Value.Lift same v w) (symbol : String)
    (span : Option Span) : operand symbol span v = operand symbol span w := by
  cases values <;> rfl

theorem Value.Lift.calleeError?_eq (values : Value.Lift same v w) :
    calleeError? v = calleeError? w := by
  cases values <;> rfl

theorem Value.Lift.operated {x y : Value} (lefts : Value.Lift same v w)
    (rights : Value.Lift same x y) (symbol : String) (span : Option Span) :
    Outcomes (Value.Lift same) (operate symbol span v x) (operate symbol span w y) := by
  have equal : operate symbol span v x = operate symbol span w y := by
    unfold operate
    rw [lefts.operand_eq, rights.operand_eq]
  have given := operate_operated symbol span v x
  rw [← equal]
  generalize operate symbol span v x = outcome at given ⊢
  cases given with
  | number value => exact .ok (.number value)
  | boolean value => exact .ok (.boolean value)
  | undefinedOperand => exact .error _
  | wrongOperand type => exact .error _
  | unknownOperator unknown => exact .error _

end Values

namespace Simulation

variable {first second : Settings} (sim : Simulation first second)

abbrev value (v w : Value) : Prop := Value.Lift sim.closure v w

structure Evaluates (names : List String) (x y : Evaluated) : Prop where
  outcome : Outcomes sim.value x.outcome y.outcome
  scope : sim.scope names x.scope y.scope
  state : sim.state x.state y.state

def Invokes (invoke other : Invoke) : Prop :=
  ∀ {c d : Closure} {args values : List Value} {a b : EvalState} (span : Option Span),
    sim.closure c d → List.Forall₂ sim.value args values → sim.state a b →
      Outcomes sim.value (invoke c args span a).1 (other d values span b).1 ∧
        sim.state (invoke c args span a).2 (other d values span b).2

variable {sim}

/-! ## Scopes of calls -/

theorem captured_keeps {c d : Closure} (functions : sim.closure c d) :
    sim.scope (Expr.readsAll c.body) c.captured d.captured := by
  have snapshots := sim.snapshot functions
  obtain ⟨name, -, -⟩ := sim.code functions
  unfold Closure.captured
  rw [← name]
  split
  · exact snapshots
  · exact sim.bind c.name snapshots (.function functions)

theorem bindAll_keeps {names : List String} (params : List String) :
    ∀ {s t : Scope} {args values : List Value}, sim.scope names s t →
      List.Forall₂ sim.value args values →
      sim.scope names (s.bindAll params args) (t.bindAll params values) := by
  induction params with
  | nil =>
    intro s t args values scopes given
    exact scopes
  | cons param params ih =>
    intro s t args values scopes given
    cases given with
    | nil => exact ih (sim.bind param scopes .undefined) .nil
    | cons head tail => exact ih (sim.bind param scopes head) tail

theorem callScope_keeps {c d : Closure} {args values : List Value} (functions : sim.closure c d)
    (given : List.Forall₂ sim.value args values) :
    sim.scope (Expr.readsAll c.body) (c.callScope args) (d.callScope values) := by
  obtain ⟨-, params, -⟩ := sim.code functions
  unfold Closure.callScope
  rw [← params]
  exact bindAll_keeps c.params (captured_keeps functions) given

/-! ## Expressions -/

theorem Evaluates.andThen {names : List String} {x y : Evaluated}
    {f g : Value → Scope → EvalState → Evaluated} (firsts : sim.Evaluates names x y)
    (nexts : ∀ {v w s t a b}, sim.value v w → sim.scope names s t → sim.state a b →
      sim.Evaluates names (f v s a) (g w t b)) :
    sim.Evaluates names (x.andThen f) (y.andThen g) := by
  rcases x with ⟨outcome, s, a⟩
  rcases y with ⟨other, t, b⟩
  obtain ⟨outcomes, scopes, states⟩ := firsts
  cases outcomes with
  | error error => exact ⟨.error error, scopes, states⟩
  | ok values => exact nexts values scopes states

theorem bindDefined_keeps {names : List String} {v w : Value} {s t : Scope} (name : String)
    (isFunction : Bool) (values : sim.value v w) (scopes : sim.scope names s t) :
    sim.value (bindDefined name isFunction v s).1 (bindDefined name isFunction w t).1 ∧
      sim.scope names (bindDefined name isFunction v s).2
        (bindDefined name isFunction w t).2 := by
  have bound : sim.value (if isFunction then v.named name else v)
      (if isFunction then w.named name else w) := by
    split
    · cases values with
      | undefined => exact .undefined
      | number value => exact .number value
      | boolean value => exact .boolean value
      | function functions => exact .function (sim.named name functions)
    · exact values
  exact ⟨bound, sim.bind name scopes bound⟩

variable {invoke other : Invoke}

theorem callTarget_keeps (invokes : sim.Invokes invoke other) {names : List String}
    {target goal : Value} {args values : List Value} {s t : Scope} {a b : EvalState}
    (span : Option Span) (callee : Expr) (targets : sim.value target goal)
    (given : List.Forall₂ sim.value args values) (scopes : sim.scope names s t)
    (states : sim.state a b) :
    sim.Evaluates names (callTarget invoke span callee target args s a)
      (callTarget other span callee goal values t b) := by
  cases targets with
  | function functions =>
    obtain ⟨outcomes, states⟩ := invokes span functions given states
    exact ⟨outcomes, scopes, states⟩
  | undefined => exact ⟨.error _, scopes, states⟩
  | number value => exact ⟨.error _, scopes, states⟩
  | boolean value => exact ⟨.error _, scopes, states⟩

mutual

theorem evalWith_keeps (invokes : sim.Invokes invoke other) {names : List String} :
    ∀ (expr : Expr) {s t : Scope} {a b : EvalState}, expr.reads ⊆ names →
      sim.scope names s t → sim.state a b →
      sim.Evaluates names (expr.evalWith invoke s a) (expr.evalWith other t b)
  | .hole, s, t, a, b, _, scopes, states => by
    rw [Expr.evalWith, Expr.evalWith]
    exact ⟨.error _, scopes, states⟩
  | .literal _ value, s, t, a, b, _, scopes, states => by
    rw [Expr.evalWith, Expr.evalWith]
    exact ⟨.ok (.number value), scopes, states⟩
  | .read _ name, s, t, a, b, reads, scopes, states => by
    rw [Expr.evalWith, Expr.evalWith]
    have asked : name ∈ names := reads (by simp [Expr.reads])
    exact ⟨.ok (sim.get scopes asked), scopes, states⟩
  | .function _ params body, s, t, a, b, reads, scopes, states => by
    rw [Expr.evalWith, Expr.evalWith]
    rw [Expr.reads] at reads
    exact ⟨.ok (.function (sim.make params reads scopes states)), scopes, sim.fresh states⟩
  | .define span name value, s, t, a, b, reads, scopes, states => by
    rw [Expr.evalWith_define, Expr.evalWith_define]
    rw [Expr.reads] at reads
    apply (evalWith_keeps invokes value reads scopes states).andThen
    intro _ _ _ _ _ _ values scopes states
    obtain ⟨bound, scopes⟩ := bindDefined_keeps name value.isFunction values scopes
    exact ⟨.ok bound, scopes, states⟩
  | .binary span symbol left right, s, t, a, b, reads, scopes, states => by
    rw [Expr.evalWith_binary, Expr.evalWith_binary]
    rw [Expr.reads, List.append_subset] at reads
    apply (evalWith_keeps invokes left reads.1 scopes states).andThen
    intro _ _ _ _ _ _ lefts scopes states
    apply (evalWith_keeps invokes right reads.2 scopes states).andThen
    intro _ _ _ _ _ _ rights scopes states
    exact ⟨lefts.operated rights symbol span.known?, scopes, states⟩
  | .guarded span condition consequent, s, t, a, b, reads, scopes, states => by
    rw [Expr.evalWith_guarded, Expr.evalWith_guarded]
    rw [Expr.reads, List.append_subset] at reads
    apply (evalWith_keeps invokes condition reads.1 scopes states).andThen
    intro _ _ _ _ _ _ tests scopes states
    rw [tests.isTrue_eq]
    split
    · exact evalWith_keeps invokes consequent reads.2 scopes states
    · exact ⟨.ok (.number 1), scopes, states⟩
  | .call span callee args, s, t, a, b, reads, scopes, states => by
    rw [Expr.evalWith_call, Expr.evalWith_call]
    rw [Expr.reads, List.append_subset] at reads
    apply (evalWith_keeps invokes callee reads.1 scopes states).andThen
    intro _ _ _ _ _ _ targets scopes states
    rw [targets.calleeError?_eq]
    split
    · exact ⟨.error _, scopes, states⟩
    · exact evalArgs_keeps invokes args reads.2 scopes states
        (callTarget_keeps invokes span.known? callee targets)

theorem evalArgs_keeps (invokes : sim.Invokes invoke other) {names : List String} :
    ∀ (args : List Expr) {s t : Scope} {a b : EvalState}
      {f g : List Value → Scope → EvalState → Evaluated}, Expr.readsAll args ⊆ names →
      sim.scope names s t → sim.state a b →
      (∀ {values others s t a b}, List.Forall₂ sim.value values others → sim.scope names s t →
        sim.state a b → sim.Evaluates names (f values s a) (g others t b)) →
      sim.Evaluates names (withArgs (evalArgs invoke args s a) f)
        (withArgs (evalArgs other args t b) g)
  | [], s, t, a, b, f, g, _, scopes, states, nexts => by
    rw [evalArgs, evalArgs]
    exact nexts .nil scopes states
  | arg :: rest, s, t, a, b, f, g, reads, scopes, states, nexts => by
    rw [withArgs_cons, withArgs_cons]
    rw [Expr.readsAll, List.append_subset] at reads
    apply (evalWith_keeps invokes arg reads.1 scopes states).andThen
    intro _ _ _ _ _ _ values scopes states
    exact evalArgs_keeps invokes rest reads.2 scopes states fun others scopes states =>
      nexts (.cons values others) scopes states

end

/-! ## Calls -/

theorem runBody_keeps (invokes : sim.Invokes invoke other) {c d : Closure}
    {args values : List Value} (functions : sim.closure c d)
    (given : List.Forall₂ sim.value args values) (body : List Expr) :
    ∀ {last final : Value} {a b : EvalState}, Expr.readsAll body ⊆ Expr.readsAll c.body →
      sim.value last final → sim.state a b →
      Outcomes sim.value (runBody invoke c args body last a).1
          (runBody other d values body final b).1 ∧
        sim.state (runBody invoke c args body last a).2
          (runBody other d values body final b).2 := by
  induction body with
  | nil =>
    intro last final a b reads lasts states
    exact ⟨.ok lasts, states⟩
  | cons expr rest ih =>
    intro last final a b reads lasts states
    rw [Expr.readsAll, List.append_subset] at reads
    have evaluated := evalWith_keeps invokes expr reads.1 (callScope_keeps functions given) states
    rw [runBody, runBody]
    generalize expr.evalWith invoke (c.callScope args) a = x at evaluated ⊢
    generalize expr.evalWith other (d.callScope values) b = y at evaluated ⊢
    rcases x with ⟨outcome, s, later⟩
    rcases y with ⟨outcome', t, later'⟩
    obtain ⟨outcomes, -, states⟩ := evaluated
    cases outcomes with
    | error error => exact ⟨.error error, states⟩
    | ok results => exact ih reads.2 results states

theorem invokeAt_keeps (sim : Simulation first second) (remaining : Nat) :
    sim.Invokes (invokeAt first remaining) (invokeAt second remaining) := by
  induction remaining with
  | zero =>
    intro c d args values a b span functions given states
    obtain ⟨name, params, body⟩ := sim.code functions
    rw [invokeAt, invokeAt, ← body, sim.limit]
    split <;> exact ⟨.error _, states⟩
  | succ remaining ih =>
    intro c d args values a b span functions given states
    obtain ⟨name, params, body⟩ := sim.code functions
    rw [invokeAt, invokeAt, ← body, ← name, ← given.length_eq]
    split
    · exact ⟨.error _, states⟩
    · have ran := runBody_keeps ih functions given c.body (List.Subset.refl _) .undefined
        (sim.enter span c.name args.length states)
      obtain ⟨outcomes, states⟩ := ran
      dsimp only
      rw [outcomes.message]
      exact ⟨outcomes, sim.leave span c.name _ states⟩

theorem remaining {a b : EvalState} (states : sim.state a b) :
    a.remaining first = b.remaining second := by
  unfold EvalState.remaining
  rw [sim.depth states, sim.limit]

theorem evaluate_keeps (sim : Simulation first second) {names : List String} (expr : Expr)
    {s t : Scope} {a b : EvalState} (reads : expr.reads ⊆ names)
    (scopes : sim.scope names s t) (states : sim.state a b) :
    sim.Evaluates names (expr.evaluate first s a) (expr.evaluate second t b) := by
  rw [Expr.evaluate_eq_eval, Expr.evaluate_eq_eval, Expr.eval, Expr.eval, remaining states]
  exact evalWith_keeps (sim.invokeAt_keeps _) expr reads scopes states

theorem apply_keeps (sim : Simulation first second) {callee target : Value}
    {args values : List Value} {a b : EvalState} (callees : sim.value callee target)
    (given : List.Forall₂ sim.value args values) (states : sim.state a b) :
    Outcomes sim.value (callee.apply first args a).1 (target.apply second values b).1 ∧
      sim.state (callee.apply first args a).2 (target.apply second values b).2 := by
  rw [Value.apply_eq_call, Value.apply_eq_call]
  cases callees with
  | function functions =>
    rw [Value.call, Value.call, remaining states]
    exact sim.invokeAt_keeps _ none functions given states
  | undefined => exact ⟨.error _, states⟩
  | number value => exact ⟨.error _, states⟩
  | boolean value => exact ⟨.error _, states⟩

/-! ## Statements -/

structure Executes (names : List String) (x y : Execution) : Prop where
  values : List.Forall₂ sim.value x.values y.values
  error : x.error = y.error
  scope : sim.scope names x.scope y.scope
  state : sim.state x.state y.state

/-- Statements correspond, if opening and closing one does.  In the first execution they may stand
`offset` places further back. -/
theorem executeFrom_keeps (sim : Simulation first second) {names : List String} (offset : Nat)
    (opening : ∀ {a b : EvalState} (index : Nat) (statement : Expr), sim.state a b →
      sim.state (a.openStatement first (offset + index) statement)
        (b.openStatement second index statement))
    (closing : ∀ {a b : EvalState} (index : Nat) (statement : Expr), sim.state a b →
      sim.state (a.closeStatement first (offset + index) statement)
        (b.closeStatement second index statement))
    (statements : List Expr) :
    ∀ (index : Nat) {s t : Scope} {a b : EvalState}, Expr.readsAll statements ⊆ names →
      sim.scope names s t → sim.state a b →
      sim.Executes names (executeFrom first (offset + index) statements s a)
        (executeFrom second index statements t b) := by
  induction statements with
  | nil =>
    intro index s t a b reads scopes states
    exact ⟨.nil, rfl, scopes, states⟩
  | cons statement rest ih =>
    intro index s t a b reads scopes states
    rw [Expr.readsAll, List.append_subset] at reads
    have evaluated := sim.evaluate_keeps statement reads.1 scopes (opening index statement states)
    rw [executeFrom, executeFrom]
    generalize statement.evaluate first s _ = x at evaluated ⊢
    generalize statement.evaluate second t _ = y at evaluated ⊢
    rcases x with ⟨outcome, s, a⟩
    rcases y with ⟨outcome', t, b⟩
    obtain ⟨outcomes, scopes, states⟩ := evaluated
    cases outcomes with
    | error error => exact ⟨.nil, rfl, scopes, states⟩
    | ok results =>
      obtain ⟨values, error, scopes, states⟩ :=
        ih (index + 1) reads.2 scopes (closing index statement states)
      exact ⟨.cons results values, error, scopes, states⟩

end Simulation
end Sapling
