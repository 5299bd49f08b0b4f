import Sapling.Proofs.Closures
import Sapling.Proofs.Simulation

/-!
# Rules of evaluation

The language as a set of rules.  `Yields limit depth expr store seen later` says what an expression
yields when `depth` calls are open and `limit` may be: a value or the code of an error, and the
bindings it leaves.  The rules name every order that matters: operands and arguments from left to
right, checks of operands after both, checks of a callee that can never be called before the
arguments and of one without a value after them, an empty body before the number of open calls.

Whatever an expression is evaluated in, there is exactly one thing that it yields by the rules, and
evaluation finds it.

A definition of a function binds the function also in its own snapshot, so that it can call itself.
The empty name is an exception: it stands for having no name.
-/

set_option autoImplicit false

namespace Sapling

abbrev Verdict (α : Type) := Except Code α

def verdict {α : Type} (outcome : Except EvalError α) : Verdict α :=
  outcome.mapError fun error => error.failure.code

/-- What an expression is evaluated in: the bindings, and the identity of the next function. -/
structure Store where
  scope : Scope
  next : Nat

namespace Store

def bind (store : Store) (name : String) (value : Value) : Store :=
  { store with scope := store.scope.bind name value }

def made (store : Store) (name : String) (params : List String) (body : List Expr) : Value :=
  .function (.mk store.next name params body store.scope)

def fresh (store : Store) : Store := { store with next := store.next + 1 }

end Store

namespace Closure

/-- The snapshot a function was made with.  One that a definition has named is itself bound there;
the empty name is none. -/
def selfBound (closure : Closure) : Scope :=
  if closure.name = "" then closure.snapshot
  else closure.snapshot.bind closure.name (.function closure)

def bodyScope (closure : Closure) (args : List Value) : Scope :=
  closure.params.zipIdx.foldl
    (fun scope entry => scope.bind entry.1 (args[entry.2]?.getD .undefined)) closure.selfBound

end Closure

/-! ## The rules -/

inductive Value.NonNumeric : Value → Prop
  | boolean (value : Bool) : NonNumeric (.boolean value)
  | function (closure : Closure) : NonNumeric (.function closure)

inductive Value.Uncallable : Value → Prop
  | number (value : Float) : Uncallable (.number value)
  | boolean (value : Bool) : Uncallable (.boolean value)

/-- What an operator makes of two operands.  The left one is checked first. -/
inductive Applies : String → Value → Value → Verdict Value → Prop
  | leftUndefined (symbol : String) (right : Value) :
      Applies symbol .undefined right (.error .undefined)
  | leftWrong (symbol : String) {left : Value} (right : Value) (wrong : left.NonNumeric) :
      Applies symbol left right (.error .type)
  | rightUndefined (symbol : String) (x : Float) :
      Applies symbol (.number x) .undefined (.error .undefined)
  | rightWrong (symbol : String) (x : Float) {right : Value} (wrong : right.NonNumeric) :
      Applies symbol (.number x) right (.error .type)
  | add (x y : Float) : Applies "+" (.number x) (.number y) (.ok (.number (x + y)))
  | subtract (x y : Float) : Applies "-" (.number x) (.number y) (.ok (.number (x - y)))
  | greater (x y : Float) : Applies ">" (.number x) (.number y) (.ok (.boolean (x > y)))
  | unknown {symbol : String} (x y : Float) (known : symbol ∉ ["+", "-", ">"]) :
      Applies symbol (.number x) (.number y) (.error .ast)

mutual

/-- What an expression yields, and what it leaves. -/
inductive Yields (limit : Nat) : Nat → Expr → Store → Verdict Value → Store → Prop
  | missing {depth : Nat} (store : Store) :
      Yields limit depth .hole store (.error .ast) store
  | literal {depth : Nat} (store : Store) (span : Span) (value : Float) :
      Yields limit depth (.literal span value) store (.ok (.number value)) store
  | bound {depth : Nat} {store : Store} (span : Span) {name : String} {value : Value}
      (found : store.scope.find? name = some value) :
      Yields limit depth (.read span name) store (.ok value) store
  | unbound {depth : Nat} {store : Store} (span : Span) {name : String}
      (absent : store.scope.find? name = none) :
      Yields limit depth (.read span name) store (.ok .undefined) store
  | function {depth : Nat} (store : Store) (span : Span) (params : List String)
      (body : List Expr) :
      Yields limit depth (.function span params body) store (.ok (store.made "" params body))
        store.fresh
  | defineFunction {depth : Nat} (store : Store) (span place : Span) (name : String)
      (params : List String) (body : List Expr) :
      Yields limit depth (.define span name (.function place params body)) store
        (.ok (store.made name params body))
        (store.fresh.bind name (store.made name params body))
  | define {depth : Nat} {store later : Store} (span : Span) (name : String) {value : Expr}
      {result : Value} (other : value.isFunction = false)
      (evaluated : Yields limit depth value store (.ok result) later) :
      Yields limit depth (.define span name value) store (.ok result) (later.bind name result)
  | defineFails {depth : Nat} {store later : Store} (span : Span) (name : String) {value : Expr}
      {code : Code} (failed : Yields limit depth value store (.error code) later) :
      Yields limit depth (.define span name value) store (.error code) later
  | leftFails {depth : Nat} {store later : Store} (span : Span) (symbol : String)
      {left : Expr} (right : Expr) {code : Code}
      (failed : Yields limit depth left store (.error code) later) :
      Yields limit depth (.binary span symbol left right) store (.error code) later
  | rightFails {depth : Nat} {store between later : Store} (span : Span) (symbol : String)
      {left right : Expr} {a : Value} {code : Code}
      (first : Yields limit depth left store (.ok a) between)
      (failed : Yields limit depth right between (.error code) later) :
      Yields limit depth (.binary span symbol left right) store (.error code) later
  | operated {depth : Nat} {store between later : Store} (span : Span) {symbol : String}
      {left right : Expr} {a b : Value} {seen : Verdict Value}
      (first : Yields limit depth left store (.ok a) between)
      (second : Yields limit depth right between (.ok b) later)
      (applied : Applies symbol a b seen) :
      Yields limit depth (.binary span symbol left right) store seen later
  | conditionFails {depth : Nat} {store later : Store} (span : Span) {condition : Expr}
      (consequent : Expr) {code : Code}
      (failed : Yields limit depth condition store (.error code) later) :
      Yields limit depth (.guarded span condition consequent) store (.error code) later
  | taken {depth : Nat} {store between later : Store} (span : Span)
      {condition consequent : Expr} {seen : Verdict Value}
      (tested : Yields limit depth condition store (.ok (.boolean true)) between)
      (evaluated : Yields limit depth consequent between seen later) :
      Yields limit depth (.guarded span condition consequent) store seen later
  | skipped {depth : Nat} {store later : Store} (span : Span) {condition : Expr}
      (consequent : Expr) {test : Value}
      (tested : Yields limit depth condition store (.ok test) later)
      (other : test ≠ .boolean true) :
      Yields limit depth (.guarded span condition consequent) store (.ok (.number 1)) later
  | calleeFails {depth : Nat} {store later : Store} (span : Span) {callee : Expr}
      (args : List Expr) {code : Code}
      (failed : Yields limit depth callee store (.error code) later) :
      Yields limit depth (.call span callee args) store (.error code) later
  | uncallable {depth : Nat} {store later : Store} (span : Span) {callee : Expr}
      (args : List Expr) {target : Value}
      (evaluated : Yields limit depth callee store (.ok target) later)
      (wrong : target.Uncallable) :
      Yields limit depth (.call span callee args) store (.error .type) later
  | argumentFails {depth : Nat} {store between later : Store} (span : Span) {callee : Expr}
      {args : List Expr} {target : Value} {code : Code}
      (evaluated : Yields limit depth callee store (.ok target) between)
      (possible : ¬ target.Uncallable)
      (failed : YieldsAll limit depth args between (.error code) later) :
      Yields limit depth (.call span callee args) store (.error code) later
  | calleeUndefined {depth : Nat} {store between later : Store} (span : Span) {callee : Expr}
      {args : List Expr} {values : List Value}
      (evaluated : Yields limit depth callee store (.ok .undefined) between)
      (given : YieldsAll limit depth args between (.ok values) later) :
      Yields limit depth (.call span callee args) store (.error .undefined) later
  | called {depth next : Nat} {store between later : Store} (span : Span) {callee : Expr}
      {args : List Expr} {closure : Closure} {values : List Value} {seen : Verdict Value}
      (evaluated : Yields limit depth callee store (.ok (.function closure)) between)
      (given : YieldsAll limit depth args between (.ok values) later)
      (calls : Calls limit depth closure values later.next seen next) :
      Yields limit depth (.call span callee args) store seen ⟨later.scope, next⟩

inductive YieldsAll (limit : Nat) :
    Nat → List Expr → Store → Verdict (List Value) → Store → Prop
  | nil {depth : Nat} (store : Store) : YieldsAll limit depth [] store (.ok []) store
  | headFails {depth : Nat} {store later : Store} {arg : Expr} (rest : List Expr) {code : Code}
      (failed : Yields limit depth arg store (.error code) later) :
      YieldsAll limit depth (arg :: rest) store (.error code) later
  | tailFails {depth : Nat} {store between later : Store} {arg : Expr} {rest : List Expr}
      {value : Value} {code : Code} (first : Yields limit depth arg store (.ok value) between)
      (failed : YieldsAll limit depth rest between (.error code) later) :
      YieldsAll limit depth (arg :: rest) store (.error code) later
  | cons {depth : Nat} {store between later : Store} {arg : Expr} {rest : List Expr}
      {value : Value} {values : List Value}
      (first : Yields limit depth arg store (.ok value) between)
      (others : YieldsAll limit depth rest between (.ok values) later) :
      YieldsAll limit depth (arg :: rest) store (.ok (value :: values)) later

/-- What a call of a function yields when `depth` others are open. -/
inductive Calls (limit : Nat) : Nat → Closure → List Value → Nat → Verdict Value → Nat → Prop
  | emptyBody {depth : Nat} {closure : Closure} (args : List Value) (next : Nat)
      (empty : closure.body = []) :
      Calls limit depth closure args next (.error .emptyBody) next
  | tooDeep {depth : Nat} {closure : Closure} (args : List Value) (next : Nat)
      (nonempty : closure.body ≠ []) (full : limit ≤ depth) :
      Calls limit depth closure args next (.error .stackOverflow) next
  | runs {depth next later : Nat} {closure : Closure} {args : List Value} {seen : Verdict Value}
      (room : depth < limit)
      (body : YieldsLast limit (depth + 1) closure args closure.body next seen later) :
      Calls limit depth closure args next seen later

/-- What the last body expression yields, or the first that fails.  Each is evaluated in a scope of
its own, and what it binds is lost. -/
inductive YieldsLast (limit : Nat) :
    Nat → Closure → List Value → List Expr → Nat → Verdict Value → Nat → Prop
  | last {depth next : Nat} {closure : Closure} {args : List Value} {expr : Expr}
      {seen : Verdict Value} {later : Store}
      (evaluated : Yields limit depth expr ⟨closure.bodyScope args, next⟩ seen later) :
      YieldsLast limit depth closure args [expr] next seen later.next
  | fails {depth next : Nat} {closure : Closure} {args : List Value} {expr : Expr}
      (second : Expr) (rest : List Expr) {code : Code} {later : Store}
      (failed : Yields limit depth expr ⟨closure.bodyScope args, next⟩ (.error code) later) :
      YieldsLast limit depth closure args (expr :: second :: rest) next (.error code) later.next
  | goesOn {depth next last : Nat} {closure : Closure} {args : List Value} {expr second : Expr}
      {rest : List Expr} {value : Value} {seen : Verdict Value} {later : Store}
      (evaluated : Yields limit depth expr ⟨closure.bodyScope args, next⟩ (.ok value) later)
      (others : YieldsLast limit depth closure args (second :: rest) later.next seen last) :
      YieldsLast limit depth closure args (expr :: second :: rest) next seen last

end

/-! ## Scopes and operators -/

theorem Closure.selfBound_eq_captured (closure : Closure) :
    closure.selfBound = closure.captured := by
  unfold Closure.selfBound Closure.captured
  by_cases unnamed : closure.name = "" <;> simp [unnamed]

theorem Scope.bindAll_eq_foldl (args : List Value) (params : List String) :
    ∀ (scope : Scope) (position : Nat),
      scope.bindAll params (args.drop position) = (params.zipIdx position).foldl
        (fun scope entry => scope.bind entry.1 (args[entry.2]?.getD .undefined)) scope := by
  induction params with
  | nil =>
    intro scope position
    rfl
  | cons param params ih =>
    intro scope position
    rw [List.zipIdx_cons, List.foldl_cons, ← ih]
    by_cases given : position < args.length
    · rw [List.drop_eq_getElem_cons given, Scope.bindAll, List.getElem?_eq_getElem given]
      rfl
    · have none : args[position]? = none := List.getElem?_eq_none (by omega)
      have empty : args.drop position = [] := List.drop_eq_nil_of_le (by omega)
      have later : args.drop (position + 1) = [] := List.drop_eq_nil_of_le (by omega)
      rw [none, empty, later, Scope.bindAll]
      rfl

theorem Closure.bodyScope_eq_callScope (closure : Closure) (args : List Value) :
    closure.bodyScope args = closure.callScope args := by
  unfold Closure.bodyScope Closure.callScope
  rw [closure.selfBound_eq_captured, ← Scope.bindAll_eq_foldl, List.drop_zero]

theorem operate_applies (symbol : String) (span : Option Span) (a b : Value) :
    Applies symbol a b (verdict (operate symbol span a b)) := by
  cases a with
  | undefined => exact .leftUndefined symbol b
  | boolean value => exact .leftWrong symbol b (.boolean value)
  | function closure => exact .leftWrong symbol b (.function closure)
  | number x =>
    cases b with
    | undefined => exact .rightUndefined symbol x
    | boolean value => exact .rightWrong symbol x (.boolean value)
    | function closure => exact .rightWrong symbol x (.function closure)
    | number y =>
      cases found : Operator.ofSymbol? symbol with
      | none =>
        have unknown := Operator.ofSymbol?_eq_none_iff.mp found
        simp only [operate, operand, found]
        exact .unknown x y unknown
      | some op =>
        have written := Operator.ofSymbol?_eq_some_iff.mp found
        subst written
        simp only [operate, operand, found]
        cases op with
        | add => exact .add x y
        | subtract => exact .subtract x y
        | greater => exact .greater x y

theorem Applies.verdict_operate {symbol : String} {a b : Value} {seen : Verdict Value}
    (applied : Applies symbol a b seen) (span : Option Span) :
    verdict (operate symbol span a b) = seen := by
  cases applied with
  | leftUndefined => rfl
  | leftWrong _ _ wrong => cases wrong <;> rfl
  | rightUndefined => rfl
  | rightWrong _ _ wrong => cases wrong <;> rfl
  | add => rfl
  | subtract => rfl
  | greater => rfl
  | unknown x y unknown =>
    have absent := Operator.ofSymbol?_eq_none_iff.mpr unknown
    simp only [operate, operand, absent]
    rfl

theorem Value.isTrue_iff {value : Value} : value.isTrue = true ↔ value = .boolean true := by
  cases value with
  | boolean value => cases value <;> simp [Value.isTrue]
  | _ => simp [Value.isTrue]

theorem Value.calleeError?_eq_none {target : Value} :
    calleeError? target = none ↔ ¬ target.Uncallable := by
  cases target with
  | number value => exact ⟨nofun, fun possible => absurd (.number value) possible⟩
  | boolean value => exact ⟨nofun, fun possible => absurd (.boolean value) possible⟩
  | undefined => exact ⟨nofun, fun _ => rfl⟩
  | function closure => exact ⟨nofun, fun _ => rfl⟩

/-! ## Evaluation follows the rules -/

def Evaluated.store (ended : Evaluated) : Store := ⟨ended.scope, ended.state.nextId⟩

structure Invoke.Follows (limit depth : Nat) (invoke : Invoke) : Prop where
  sound (closure : Closure) (args : List Value) (span : Option Span) (state : EvalState) :
    Calls limit depth closure args state.nextId (verdict (invoke closure args span state).1)
      (invoke closure args span state).2.nextId
  complete {closure : Closure} {args : List Value} {state : EvalState} {seen : Verdict Value}
    {later : Nat} (span : Option Span) :
    Calls limit depth closure args state.nextId seen later →
      verdict (invoke closure args span state).1 = seen ∧
        (invoke closure args span state).2.nextId = later

section Sound
variable {limit depth : Nat} {invoke : Invoke}

mutual

theorem evalWith_sound (follows : invoke.Follows limit depth) :
    ∀ (expr : Expr) (scope : Scope) (state : EvalState),
      Yields limit depth expr ⟨scope, state.nextId⟩
        (verdict (expr.evalWith invoke scope state).outcome)
        (expr.evalWith invoke scope state).store
  | .hole, scope, state => by
    rw [Expr.evalWith]
    exact .missing _
  | .literal span value, scope, state => by
    rw [Expr.evalWith]
    exact .literal _ span value
  | .read span name, scope, state => by
    rw [Expr.evalWith]
    unfold Scope.get
    cases found : scope.find? name with
    | none => exact .unbound span found
    | some value => exact .bound span found
  | .function span params body, scope, state => by
    rw [Expr.evalWith]
    exact .function _ span params body
  | .define span name value, scope, state => by
    rw [Expr.evalWith_define]
    cases kind : value.isFunction with
    | true =>
      -- only a function node makes a function on the spot
      cases value with
      | function place params body =>
        rw [Expr.evalWith]
        exact .defineFunction ⟨scope, state.nextId⟩ span place name params body
      | _ => cases kind
    | false =>
      have evaluated := evalWith_sound follows value scope state
      generalize value.evalWith invoke scope state = ended at evaluated ⊢
      rcases ended with ⟨outcome, after, later⟩
      cases outcome with
      | error error => exact .defineFails span name evaluated
      | ok result => exact .define span name kind evaluated
  | .binary span symbol left right, scope, state => by
    rw [Expr.evalWith_binary]
    have first := evalWith_sound follows left scope state
    generalize left.evalWith invoke scope state = ended at first ⊢
    rcases ended with ⟨outcome, between, middle⟩
    cases outcome with
    | error error => exact .leftFails span symbol right first
    | ok a =>
      simp only [Evaluated.andThen]
      have second := evalWith_sound follows right between middle
      generalize right.evalWith invoke between middle = ended at second ⊢
      rcases ended with ⟨outcome, after, later⟩
      cases outcome with
      | error error => exact .rightFails span symbol first second
      | ok b => exact .operated span first second (operate_applies symbol span.known? a b)
  | .guarded span condition consequent, scope, state => by
    rw [Expr.evalWith_guarded]
    have tested := evalWith_sound follows condition scope state
    generalize condition.evalWith invoke scope state = ended at tested ⊢
    rcases ended with ⟨outcome, between, middle⟩
    cases outcome with
    | error error => exact .conditionFails span consequent tested
    | ok test =>
      simp only [Evaluated.andThen]
      by_cases holds : test = .boolean true
      · subst holds
        exact .taken span tested (evalWith_sound follows consequent between middle)
      · rw [if_neg (Value.isTrue_iff.not.mpr holds)]
        exact .skipped span consequent tested holds
  | .call span callee args, scope, state => by
    rw [Expr.evalWith_call]
    have evaluated := evalWith_sound follows callee scope state
    generalize callee.evalWith invoke scope state = ended at evaluated ⊢
    rcases ended with ⟨outcome, between, middle⟩
    cases outcome with
    | error error => exact .calleeFails span args evaluated
    | ok target =>
      simp only [Evaluated.andThen]
      by_cases wrong : target.Uncallable
      · cases wrong with
        | number value => exact .uncallable span args evaluated (.number value)
        | boolean value => exact .uncallable span args evaluated (.boolean value)
      · rw [Value.calleeError?_eq_none.mpr wrong]
        have given := evalArgs_sound follows args between middle
        dsimp only
        generalize evalArgs invoke args between middle = ended at given ⊢
        rcases ended with ⟨outcome, after, later⟩
        cases outcome with
        | error error => exact .argumentFails span evaluated wrong given
        | ok values =>
          cases target with
          | function closure =>
            exact .called span evaluated given (follows.sound closure values span.known? later)
          | undefined => cases callee <;> exact .calleeUndefined span evaluated given
          | number value => exact absurd (.number value) wrong
          | boolean value => exact absurd (.boolean value) wrong

theorem evalArgs_sound (follows : invoke.Follows limit depth) :
    ∀ (args : List Expr) (scope : Scope) (state : EvalState),
      YieldsAll limit depth args ⟨scope, state.nextId⟩
        (verdict (evalArgs invoke args scope state).1)
        ⟨(evalArgs invoke args scope state).2.1, (evalArgs invoke args scope state).2.2.nextId⟩
  | [], scope, state => by
    rw [evalArgs]
    exact .nil _
  | arg :: rest, scope, state => by
    rw [evalArgs]
    have first := evalWith_sound follows arg scope state
    generalize arg.evalWith invoke scope state = ended at first ⊢
    rcases ended with ⟨outcome, between, middle⟩
    cases outcome with
    | error error => exact .headFails rest first
    | ok value =>
      have others := evalArgs_sound follows rest between middle
      dsimp only
      generalize evalArgs invoke rest between middle = ended at others ⊢
      rcases ended with ⟨outcome, after, later⟩
      cases outcome with
      | error error => exact .tailFails first others
      | ok values => exact .cons first others

end

end Sound

section Complete
variable {limit depth : Nat} {invoke : Invoke}

structure Evaluated.Gives (ended : Evaluated) (seen : Verdict Value) (later : Store) : Prop where
  verdict : Sapling.verdict ended.outcome = seen
  store : ended.store = later

theorem verdict_eq_ok {α : Type} {outcome : Except EvalError α} {result : α}
    (seen : verdict outcome = .ok result) : outcome = .ok result := by
  cases outcome with
  | error error => cases seen
  | ok value =>
    cases seen
    rfl

theorem verdict_eq_error {α : Type} {outcome : Except EvalError α} {code : Code}
    (seen : verdict outcome = .error code) :
    ∃ error : EvalError, outcome = .error error ∧ code = error.failure.code := by
  cases outcome with
  | ok value => cases seen
  | error error =>
    cases seen
    exact ⟨error, rfl, rfl⟩

namespace Evaluated.Gives

variable {ended : Evaluated} {value : Value} {code : Code} {seen : Verdict Value}
  {between later : Store} {next : Value → Scope → EvalState → Evaluated}

theorem of_ok (given : ended.Gives (.ok value) later) :
    ∃ scope state, ended = ⟨.ok value, scope, state⟩ ∧ later = ⟨scope, state.nextId⟩ := by
  rcases ended with ⟨outcome, scope, state⟩
  obtain ⟨verdict, store⟩ := given
  cases verdict_eq_ok verdict
  exact ⟨scope, state, rfl, store.symm⟩

theorem of_error (given : ended.Gives (.error code) later) :
    ∃ error scope state, ended = ⟨.error error, scope, state⟩ ∧ code = error.failure.code ∧
      later = ⟨scope, state.nextId⟩ := by
  rcases ended with ⟨outcome, scope, state⟩
  obtain ⟨verdict, store⟩ := given
  obtain ⟨error, rfl, same⟩ := verdict_eq_error verdict
  exact ⟨error, scope, state, rfl, same, store.symm⟩

theorem stops (given : ended.Gives (.error code) later) :
    (ended.andThen next).Gives (.error code) later := by
  obtain ⟨error, scope, state, rfl, -, -⟩ := given.of_error
  exact given

theorem goesOn (given : ended.Gives (.ok value) between)
    (after : ∀ scope state, between = ⟨scope, state.nextId⟩ →
      (next value scope state).Gives seen later) :
    (ended.andThen next).Gives seen later := by
  obtain ⟨scope, state, rfl, store⟩ := given.of_ok
  exact after scope state store

end Evaluated.Gives

mutual

theorem evalWith_complete (follows : invoke.Follows limit depth) :
    ∀ (expr : Expr) {scope : Scope} {state : EvalState} {seen : Verdict Value} {later : Store},
      Yields limit depth expr ⟨scope, state.nextId⟩ seen later →
      (expr.evalWith invoke scope state).Gives seen later
  | .hole, scope, state, _, _, yields => by
    cases yields
    rw [Expr.evalWith]
    exact ⟨rfl, rfl⟩
  | .literal _ _, scope, state, _, _, yields => by
    cases yields
    rw [Expr.evalWith]
    exact ⟨rfl, rfl⟩
  | .read _ name, scope, state, _, _, yields => by
    rw [Expr.evalWith]
    unfold Scope.get
    cases yields with
    | bound _ found =>
      rw [found]
      exact ⟨rfl, rfl⟩
    | unbound _ absent =>
      rw [absent]
      exact ⟨rfl, rfl⟩
  | .function _ _ _, scope, state, _, _, yields => by
    cases yields
    rw [Expr.evalWith]
    exact ⟨rfl, rfl⟩
  | .define _ name value, scope, state, _, _, yields => by
    rw [Expr.evalWith_define]
    cases yields with
    | defineFunction _ _ place _ params body =>
      rw [Expr.evalWith]
      exact ⟨rfl, rfl⟩
    | defineFails _ _ failed => exact (evalWith_complete follows value failed).stops
    | define _ _ other evaluated =>
      apply (evalWith_complete follows value evaluated).goesOn
      rintro scope state rfl
      rw [other]
      exact ⟨rfl, rfl⟩
  | .binary span symbol left right, scope, state, _, _, yields => by
    rw [Expr.evalWith_binary]
    cases yields with
    | leftFails _ _ _ failed => exact (evalWith_complete follows left failed).stops
    | rightFails _ _ first failed =>
      apply (evalWith_complete follows left first).goesOn
      rintro scope state rfl
      exact (evalWith_complete follows right failed).stops
    | operated _ first second applied =>
      apply (evalWith_complete follows left first).goesOn
      rintro scope state rfl
      apply (evalWith_complete follows right second).goesOn
      rintro scope state rfl
      exact ⟨applied.verdict_operate _, rfl⟩
  | .guarded span condition consequent, scope, state, _, _, yields => by
    rw [Expr.evalWith_guarded]
    cases yields with
    | conditionFails _ _ failed => exact (evalWith_complete follows condition failed).stops
    | taken _ tested evaluated =>
      apply (evalWith_complete follows condition tested).goesOn
      rintro scope state rfl
      exact evalWith_complete follows consequent evaluated
    | skipped _ _ tested other =>
      apply (evalWith_complete follows condition tested).goesOn
      rintro scope state rfl
      rw [if_neg (Value.isTrue_iff.not.mpr other)]
      exact ⟨rfl, rfl⟩
  | .call span callee args, scope, state, _, _, yields => by
    rw [Expr.evalWith_call]
    cases yields with
    | calleeFails _ _ failed => exact (evalWith_complete follows callee failed).stops
    | uncallable _ _ evaluated wrong =>
      apply (evalWith_complete follows callee evaluated).goesOn
      rintro scope state rfl
      cases wrong <;> exact ⟨rfl, rfl⟩
    | argumentFails _ evaluated possible failed =>
      apply (evalWith_complete follows callee evaluated).goesOn
      rintro scope state rfl
      obtain ⟨error, after, later, ran, rfl, rfl⟩ := evalArgs_fails follows args failed
      rw [Value.calleeError?_eq_none.mpr possible, ran]
      exact ⟨rfl, rfl⟩
    | calleeUndefined _ evaluated given =>
      apply (evalWith_complete follows callee evaluated).goesOn
      rintro scope state rfl
      obtain ⟨after, later, ran, rfl⟩ := evalArgs_completes follows args given
      rw [ran]
      cases callee <;> exact ⟨rfl, rfl⟩
    | called _ evaluated given calls =>
      apply (evalWith_complete follows callee evaluated).goesOn
      rintro scope state rfl
      obtain ⟨after, later, ran, rfl⟩ := evalArgs_completes follows args given
      rw [ran]
      obtain ⟨seen, rfl⟩ := follows.complete span.known? calls
      exact ⟨seen, rfl⟩

theorem evalArgs_completes (follows : invoke.Follows limit depth) :
    ∀ (args : List Expr) {scope : Scope} {state : EvalState} {values : List Value} {store : Store},
      YieldsAll limit depth args ⟨scope, state.nextId⟩ (.ok values) store →
      ∃ after later, evalArgs invoke args scope state = (.ok values, after, later) ∧
        store = ⟨after, later.nextId⟩
  | [], scope, state, _, _, yields => by
    cases yields
    rw [evalArgs]
    exact ⟨scope, state, rfl, rfl⟩
  | arg :: rest, scope, state, _, _, yields => by
    cases yields with
    | cons first others =>
      obtain ⟨between, middle, ran, rfl⟩ := (evalWith_complete follows arg first).of_ok
      obtain ⟨after, later, ranOthers, rfl⟩ := evalArgs_completes follows rest others
      rw [evalArgs, ran]
      dsimp only
      rw [ranOthers]
      exact ⟨after, later, rfl, rfl⟩

theorem evalArgs_fails (follows : invoke.Follows limit depth) :
    ∀ (args : List Expr) {scope : Scope} {state : EvalState} {code : Code} {store : Store},
      YieldsAll limit depth args ⟨scope, state.nextId⟩ (.error code) store →
      ∃ error after later, evalArgs invoke args scope state = (.error error, after, later) ∧
        code = error.failure.code ∧ store = ⟨after, later.nextId⟩
  | [], scope, state, _, _, yields => nomatch yields
  | arg :: rest, scope, state, _, _, yields => by
    cases yields with
    | headFails _ failed =>
      obtain ⟨error, after, later, ran, rfl, rfl⟩ := (evalWith_complete follows arg failed).of_error
      rw [evalArgs, ran]
      exact ⟨error, after, later, rfl, rfl, rfl⟩
    | tailFails first failed =>
      obtain ⟨between, middle, ran, rfl⟩ := (evalWith_complete follows arg first).of_ok
      obtain ⟨error, after, later, ranOthers, rfl, rfl⟩ := evalArgs_fails follows rest failed
      rw [evalArgs, ran]
      dsimp only
      rw [ranOthers]
      exact ⟨error, after, later, rfl, rfl, rfl⟩

end

end Complete

/-! ## Calls -/

section Bodies
variable {limit depth : Nat} {invoke : Invoke} {closure : Closure} {args : List Value}

theorem runBody_sound (follows : invoke.Follows limit depth) (body : List Expr) :
    ∀ (before : Value) (state : EvalState), body ≠ [] →
      YieldsLast limit depth closure args body state.nextId
        (verdict (runBody invoke closure args body before state).1)
        (runBody invoke closure args body before state).2.nextId := by
  induction body with
  | nil => exact fun _ _ nonempty => absurd rfl nonempty
  | cons expr rest ih =>
    intro before state _
    have evaluated := evalWith_sound follows expr (closure.bodyScope args) state
    rw [runBody, ← closure.bodyScope_eq_callScope]
    generalize expr.evalWith invoke (closure.bodyScope args) state = ended at evaluated ⊢
    rcases ended with ⟨outcome, scope, later⟩
    cases rest with
    | nil => cases outcome <;> exact .last evaluated
    | cons second rest =>
      cases outcome with
      | error error => exact .fails second rest evaluated
      | ok value => exact .goesOn evaluated (ih value later (List.cons_ne_nil second rest))

theorem runBody_complete (follows : invoke.Follows limit depth) (body : List Expr) :
    ∀ {before : Value} {state : EvalState} {seen : Verdict Value} {later : Nat},
      YieldsLast limit depth closure args body state.nextId seen later →
      verdict (runBody invoke closure args body before state).1 = seen ∧
        (runBody invoke closure args body before state).2.nextId = later := by
  induction body with
  | nil => nofun
  | cons expr rest ih =>
    intro before state seen later yields
    rw [runBody, ← closure.bodyScope_eq_callScope]
    cases yields with
    | last evaluated =>
      have given := evalWith_complete follows expr evaluated
      generalize expr.evalWith invoke (closure.bodyScope args) state = ended at given ⊢
      rcases ended with ⟨outcome, scope, after⟩
      obtain ⟨rfl, rfl⟩ := given
      cases outcome <;> exact ⟨rfl, rfl⟩
    | fails second rest failed =>
      obtain ⟨error, scope, after, ran, rfl, rfl⟩ :=
        (evalWith_complete follows expr failed).of_error
      rw [ran]
      exact ⟨rfl, rfl⟩
    | goesOn evaluated others =>
      obtain ⟨scope, after, ran, rfl⟩ := (evalWith_complete follows expr evaluated).of_ok
      rw [ran]
      exact ih others

end Bodies

section Invocations
variable (settings : Settings) {closure : Closure} (args : List Value) (span : Option Span)
  (state : EvalState)

theorem invokeAt_of_empty (remaining : Nat) (empty : closure.body = []) :
    invokeAt settings remaining closure args span state = (.error ⟨.emptyBody, span⟩, state) := by
  cases remaining <;> rw [invokeAt, if_pos (by simpa using empty)]

theorem invokeAt_zero (nonempty : closure.body ≠ []) :
    invokeAt settings 0 closure args span state =
      (.error ⟨.tooDeep settings.limit, span⟩, state) := by
  rw [invokeAt, if_neg (by simpa using nonempty)]

theorem invokeAt_succ (remaining : Nat) (nonempty : closure.body ≠ []) :
    let ran := runBody (invokeAt settings remaining) closure args closure.body .undefined
      (state.enter settings span closure.name args.length)
    (invokeAt settings (remaining + 1) closure args span state).1 = ran.1 ∧
      (invokeAt settings (remaining + 1) closure args span state).2.nextId = ran.2.nextId := by
  rw [invokeAt, if_neg (by simpa using nonempty)]
  exact ⟨rfl, EvalState.leave_nextId ..⟩

end Invocations

theorem invokeAt_follows (settings : Settings) (remaining : Nat) :
    ∀ depth : Nat, remaining = settings.limit - depth →
      (invokeAt settings remaining).Follows settings.limit depth := by
  induction remaining with
  | zero =>
    intro depth left
    have full : settings.limit ≤ depth := by omega
    constructor
    · intro closure args span state
      by_cases empty : closure.body = []
      · rw [invokeAt_of_empty settings args span state 0 empty]
        exact .emptyBody args state.nextId empty
      · rw [invokeAt_zero settings args span state empty]
        exact .tooDeep args state.nextId empty full
    · intro closure args state seen later span calls
      cases calls with
      | emptyBody _ _ empty =>
        rw [invokeAt_of_empty settings args span state 0 empty]
        exact ⟨rfl, rfl⟩
      | tooDeep _ _ nonempty full =>
        rw [invokeAt_zero settings args span state nonempty]
        exact ⟨rfl, rfl⟩
      | runs room body => omega
  | succ remaining ih =>
    intro depth left
    have room : depth < settings.limit := by omega
    have inside := ih (depth + 1) (by omega)
    constructor
    · intro closure args span state
      by_cases empty : closure.body = []
      · rw [invokeAt_of_empty settings args span state (remaining + 1) empty]
        exact .emptyBody args state.nextId empty
      · obtain ⟨outcome, next⟩ := invokeAt_succ settings args span state remaining empty
        rw [outcome, next]
        apply Calls.runs room
        rw [← EvalState.enter_nextId state settings span closure.name args.length]
        exact runBody_sound inside closure.body .undefined _ empty
    · intro closure args state seen later span calls
      cases calls with
      | emptyBody _ _ empty =>
        rw [invokeAt_of_empty settings args span state (remaining + 1) empty]
        exact ⟨rfl, rfl⟩
      | tooDeep _ _ nonempty full => omega
      | runs _ body =>
        have nonempty : closure.body ≠ [] := by
          intro empty
          rw [empty] at body
          cases body
        obtain ⟨outcome, next⟩ := invokeAt_succ settings args span state remaining nonempty
        rw [outcome, next]
        rw [← EvalState.enter_nextId state settings span closure.name args.length] at body
        exact runBody_complete inside closure.body body

/-- By the rules an expression yields exactly one thing: what its evaluation gives, a value or the
code of an error, with the bindings that the evaluation leaves, be it a success or a failure. -/
theorem Expr.evaluation_by_rules (settings : Settings) (expr : Expr) (scope : Scope)
    (state : EvalState) (seen : Verdict Value) (later : Store) :
    let ended := expr.evaluate settings scope state
    Yields settings.limit state.tracker.depth expr ⟨scope, state.nextId⟩ seen later ↔
      seen = verdict ended.outcome ∧ later = ⟨ended.scope, ended.state.nextId⟩ := by
  intro ended
  have follows : (invokeAt settings (state.remaining settings)).Follows settings.limit
      state.tracker.depth := invokeAt_follows settings _ _ rfl
  have same : ended = expr.evalWith (invokeAt settings (state.remaining settings)) scope state := by
    rw [← Expr.eval, ← Expr.evaluate_eq_eval]
  rw [same]
  constructor
  · intro yields
    obtain ⟨outcome, store⟩ := evalWith_complete follows expr yields
    exact ⟨outcome.symm, store.symm⟩
  · rintro ⟨rfl, rfl⟩
    exact evalWith_sound follows expr scope state

def Program.callsUnnamed : Program :=
  ⟨Span.zero,
    [.define Span.zero "" (.function Span.zero [] [.read Span.zero ""]),
      .call Span.zero (.read Span.zero "") []]⟩

/-- A definition under the empty name does not bind its function in the function's own snapshot: the
call finds no value there, where it would find the function if it were bound. -/
theorem Program.callsUnnamed_without_itself :
    let closure : Closure := .mk 0 "" [] [.read Span.zero ""] Scope.empty
    let execution := callsUnnamed.execute ⟨1, false, ""⟩ Scope.empty 0
    execution.error = none ∧ execution.values = [.function closure, .undefined] ∧
      closure.captured.find? "" = none ∧
      (closure.snapshot.bind "" (.function closure)).get "" = .function closure := by
  intro closure execution
  refine ⟨?_, ?_, rfl, rfl⟩
  · simp only [execution, Program.execute, callsUnnamed, executeFrom, Expr.evaluate_eq_eval]
    rfl
  · simp only [execution, Program.execute, callsUnnamed, executeFrom, Expr.evaluate_eq_eval]
    rfl

end Sapling
