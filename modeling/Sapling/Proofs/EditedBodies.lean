import Sapling.Proofs.Bodies

/-!
# Editing a body

The last expression of a function's body gives the value of a call, and the others matter only in
that they do not fail.  If all of them succeed, leaving some of them out, repeating some or putting
them in another order changes nothing.

A function that knows itself by name can call itself, so the edited function has to be followed
through calls of calls.  The relation goes one way: if the function succeeds, so does the edited one
(`invokeAt_ensures`).  And where the value holds the function under its own name, it now holds the
edited one: that is what `linked` functions are for.
-/

set_option autoImplicit false

namespace Sapling

/-! ## Evaluations that succeed if others do -/

section Ensures
variable (next depth : Nat) (linked : Closure → Closure → Prop)

/-- If the first evaluation succeeds, so does the second, and they match. -/
inductive Evaluated.Ensures : Evaluated → Evaluated → Prop
  | ok {v w : Value} {s t : Scope} {a b : EvalState} (values : Value.Matches next linked v w)
      (scopes : Scope.Matches next linked s t) (here : a.At next depth) (there : b.At next depth) :
      Ensures ⟨.ok v, s, a⟩ ⟨.ok w, t, b⟩
  | error {error : EvalError} {s : Scope} {a : EvalState} {other : Evaluated} :
      Ensures ⟨.error error, s, a⟩ other

inductive CallEnsures : Outcome × EvalState → Outcome × EvalState → Prop
  | ok {v w : Value} {a b : EvalState} (values : Value.Matches next linked v w)
      (here : a.At next depth) (there : b.At next depth) : CallEnsures (.ok v, a) (.ok w, b)
  | error {error : EvalError} {a : EvalState} {other : Outcome × EvalState} :
      CallEnsures (.error error, a) other

end Ensures

theorem CallEnsures.of_ok {next depth : Nat} {linked : Closure → Closure → Prop}
    {x y : Outcome × EvalState} (ensures : CallEnsures next depth linked x y) {v : Value}
    (succeeds : x.1 = .ok v) : ∃ w, y.1 = .ok w ∧ Value.Matches next linked v w := by
  cases ensures with
  | error => cases succeeds
  | ok values here there =>
    cases succeeds
    exact ⟨_, rfl, values⟩

def InvokesEnsure (next : Nat) (linked : Closure → Closure → Prop) (invoke other : Invoke) : Prop :=
  ∀ {depth : Nat} {c d : Closure} {args values : List Value} {a b : EvalState} (span : Option Span),
    Closure.Matches next linked c d → List.Forall₂ (Value.Matches next linked) args values →
    a.At next depth → b.At next depth →
      CallEnsures next depth linked (invoke c args span a) (other d values span b)

section Expressions
variable {next depth : Nat} {linked : Closure → Closure → Prop} {invoke other : Invoke}

theorem Evaluated.Ensures.andThen {x y : Evaluated} {f g : Value → Scope → EvalState → Evaluated}
    (first : Evaluated.Ensures next depth linked x y)
    (nexts : ∀ {v w s t a b}, Value.Matches next linked v w → Scope.Matches next linked s t →
      a.At next depth → b.At next depth → Evaluated.Ensures next depth linked (f v s a) (g w t b)) :
    Evaluated.Ensures next depth linked (x.andThen f) (y.andThen g) := by
  cases first with
  | error => exact .error
  | ok values scopes here there => exact nexts values scopes here there

theorem Evaluated.Ensures.of_ok {v : Value} {s : Scope} {a : EvalState} {y : Evaluated}
    (ensures : Evaluated.Ensures next depth linked ⟨.ok v, s, a⟩ y) :
    a.At next depth ∧ ∃ w t b, y = ⟨.ok w, t, b⟩ ∧ Value.Matches next linked v w ∧
      b.At next depth := by
  cases ensures with
  | ok values scopes here there => exact ⟨here, _, _, _, rfl, values, there⟩

theorem Evaluated.ensures_of_outcomes {x y : Outcome} {s t : Scope} {a b : EvalState}
    (outcomes : Outcomes (Value.Matches next linked) x y) (scopes : Scope.Matches next linked s t)
    (here : a.At next depth) (there : b.At next depth) :
    Evaluated.Ensures next depth linked ⟨x, s, a⟩ ⟨y, t, b⟩ := by
  cases outcomes with
  | error error => exact .error
  | ok values => exact .ok values scopes here there

theorem evalArgs_ensures {args : List Expr}
    (each : ∀ arg ∈ args, ∀ {s t a b}, Scope.Matches next linked s t → a.At next depth →
      b.At next depth → Evaluated.Ensures next depth linked (arg.evalWith invoke s a)
        (arg.evalWith other t b)) :
    ∀ {s t a b} {f g : List Value → Scope → EvalState → Evaluated},
      Scope.Matches next linked s t → a.At next depth → b.At next depth →
      (∀ {values others s t a b}, List.Forall₂ (Value.Matches next linked) values others →
        Scope.Matches next linked s t → a.At next depth → b.At next depth →
        Evaluated.Ensures next depth linked (f values s a) (g others t b)) →
      Evaluated.Ensures next depth linked (withArgs (evalArgs invoke args s a) f)
        (withArgs (evalArgs other args t b) g) := by
  induction args with
  | nil =>
    intro s t a b f g scopes here there nexts
    rw [evalArgs, evalArgs]
    exact nexts .nil scopes here there
  | cons arg rest ih =>
    intro s t a b f g scopes here there nexts
    obtain ⟨first, others⟩ := List.forall_mem_cons.mp each
    rw [withArgs_cons, withArgs_cons]
    refine (first scopes here there).andThen fun values scopes here there => ?_
    exact ih others scopes here there fun others scopes here there =>
      nexts (.cons values others) scopes here there

theorem callTarget_ensures (invokes : InvokesEnsure next linked invoke other)
    {target goal : Value} {args values : List Value} {s t : Scope} {a b : EvalState}
    (span : Option Span) (callee : Expr) (targets : Value.Matches next linked target goal)
    (given : List.Forall₂ (Value.Matches next linked) args values)
    (scopes : Scope.Matches next linked s t) (here : a.At next depth) (there : b.At next depth) :
    Evaluated.Ensures next depth linked (callTarget invoke span callee target args s a)
      (callTarget other span callee goal values t b) := by
  cases targets with
  | @function c d functions =>
    have called := invokes span functions given here there
    rw [callTarget, callTarget]
    generalize invoke c args span a = x at called ⊢
    generalize other d values span b = y at called ⊢
    cases called with
    | error => exact .error
    | ok values here there => exact .ok values scopes here there
  | undefined => exact .error
  | number value => exact .error
  | boolean value => exact .error

theorem Expr.evalWith_ensures (invokes : InvokesEnsure next linked invoke other) (expr : Expr) :
    ∀ {s t : Scope} {a b : EvalState}, Scope.Matches next linked s t → a.At next depth →
      b.At next depth → Evaluated.Ensures next depth linked (expr.evalWith invoke s a)
        (expr.evalWith other t b) := by
  induction expr using children_induction with
  | node expr ih =>
    intro s t a b scopes here there
    cases expr with
    | hole =>
      rw [evalWith]
      exact .error
    | literal span value =>
      rw [evalWith, evalWith]
      exact .ok (.number value) scopes here there
    | read span name =>
      rw [evalWith, evalWith]
      exact .ok (scopes.values name) scopes here there
    | function span params body =>
      rw [evalWith, evalWith]
      have made := Closure.matches_made "" params body here.next_le there.next_le scopes
      exact .ok (.function made) scopes here.fresh there.fresh
    | define span name value =>
      by_cases isFunction : value.isFunction = true
      · -- the function just made takes the name, so it is not one that is linked
        cases value with
        | function place params body =>
          have made := Closure.matches_made name params body here.next_le there.next_le scopes
          rw [evalWith_define, evalWith_define, evalWith, evalWith]
          exact .ok (.function made) (scopes.bind name (.function made)) here.fresh there.fresh
        | _ => cases isFunction
      · rw [evalWith_define, evalWith_define]
        refine (ih value (by simp [children]) scopes here there).andThen ?_
        intro v w s t a b values scopes here there
        simp only [bindDefined, isFunction]
        exact .ok values (scopes.bind name values) here there
    | binary span symbol left right =>
      rw [evalWith_binary, evalWith_binary]
      refine (ih left (by simp [children]) scopes here there).andThen ?_
      intro _ _ _ _ _ _ lefts scopes here there
      refine (ih right (by simp [children]) scopes here there).andThen ?_
      intro _ _ _ _ _ _ rights scopes here there
      exact Evaluated.ensures_of_outcomes (lefts.operated rights symbol span.known?) scopes here
        there
    | guarded span condition consequent =>
      rw [evalWith_guarded, evalWith_guarded]
      refine (ih condition (by simp [children]) scopes here there).andThen ?_
      intro _ _ _ _ _ _ tests scopes here there
      rw [tests.isTrue_eq]
      split
      · exact ih consequent (by simp [children]) scopes here there
      · exact .ok (.number 1) scopes here there
    | call span callee args =>
      rw [evalWith_call, evalWith_call]
      refine (ih callee (by simp [children]) scopes here there).andThen ?_
      intro _ _ _ _ _ _ targets scopes here there
      rw [targets.calleeError?_eq]
      split
      · exact .error
      · refine evalArgs_ensures (fun arg isIn => ih arg (by simp [children, isIn])) scopes here
          there fun given scopes here there => ?_
        exact callTarget_ensures invokes span.known? callee targets given scopes here there

end Expressions

/-! ## Bodies -/

/-- The bodies end with the same expression, and all that the other one holds is in the first. -/
def Rearranged (body other : List Expr) : Prop :=
  ∃ front rest last, body = front ++ [last] ∧ other = rest ++ [last] ∧ rest ⊆ body

theorem rearranged_self {body : List Expr} (nonempty : body ≠ []) : Rearranged body body := by
  obtain ⟨front, last, rfl⟩ := List.eq_nil_or_concat body |>.resolve_left nonempty
  exact ⟨front, front, last, by simp, by simp, by simp⟩

section Bodies
variable {next depth : Nat} {linked : Closure → Closure → Prop} {invoke other : Invoke}

/-- Wherever the expression is evaluated in the scope, it succeeds with a value that matches. -/
def Expr.Assures (next depth : Nat) (linked : Closure → Closure → Prop) (invoke : Invoke)
    (scope : Scope) (expr : Expr) (value : Value) : Prop :=
  ∀ {state : EvalState}, state.At next depth → ∃ result left later,
    expr.evalWith invoke scope state = ⟨.ok result, left, later⟩ ∧
      Value.Matches next linked value result ∧ later.At next depth

theorem runBody_assures (invokes : InvokesEnsure next linked invoke other) {c d : Closure}
    {args values : List Value}
    (scopes : Scope.Matches next linked (c.callScope args) (d.callScope values))
    (body : List Expr) : ∀ {last value : Value} {state ended : EvalState}, state.At next depth →
      runBody invoke c args body last state = (.ok value, ended) →
      ended.At next depth ∧
        (∀ expr ∈ body, ∃ value,
          expr.Assures next depth linked other (d.callScope values) value) ∧
        ∀ front final, body = front ++ [final] →
          final.Assures next depth linked other (d.callScope values) value := by
  induction body with
  | nil =>
    intro last value state ended here succeeds
    cases succeeds
    exact ⟨here, nofun, by simp⟩
  | cons expr rest ih =>
    intro last value state ended here succeeds
    have ensures {b : EvalState} (there : b.At next depth) :=
      expr.evalWith_ensures invokes scopes here there
    rw [runBody] at succeeds
    generalize expr.evalWith invoke (c.callScope args) state = first at ensures succeeds
    obtain ⟨outcome, left, later⟩ := first
    cases outcome with
    | error error => cases succeeds
    | ok own =>
      have assured : expr.Assures next depth linked other (d.callScope values) own :=
        fun there => (ensures there).of_ok.2
      obtain ⟨level, each, final⟩ := ih (ensures here).of_ok.1 succeeds
      refine ⟨level, List.forall_mem_cons.mpr ⟨⟨own, assured⟩, each⟩, ?_⟩
      intro front last same
      cases front with
      | nil =>
        obtain ⟨rfl, rfl⟩ := List.cons.inj same
        cases succeeds
        exact assured
      | cons first front => exact final front last (List.cons.inj same).2

theorem runBody_of_assured {d : Closure} {values : List Value} {final : Expr} {value : Value}
    (assured : final.Assures next depth linked invoke (d.callScope values) value)
    (front : List Expr) : ∀ (last : Value) {state : EvalState},
      (∀ expr ∈ front, ∃ value, expr.Assures next depth linked invoke (d.callScope values) value) →
      state.At next depth → ∃ result ended,
        runBody invoke d values (front ++ [final]) last state = (.ok result, ended) ∧
          Value.Matches next linked value result ∧ ended.At next depth := by
  induction front with
  | nil =>
    intro last state each here
    obtain ⟨result, left, later, evaluated, matching, level⟩ := assured here
    refine ⟨result, later, ?_, matching, level⟩
    rw [List.nil_append, runBody, evaluated]
    rfl
  | cons expr rest ih =>
    intro last state each here
    obtain ⟨⟨own, first⟩, others⟩ := List.forall_mem_cons.mp each
    obtain ⟨result, left, later, evaluated, -, level⟩ := first here
    obtain ⟨value, ended, ran, matching⟩ := ih result others level
    refine ⟨value, ended, ?_, matching⟩
    rw [List.cons_append, runBody, evaluated]
    exact ran

end Bodies

/-! ## Calls -/

section Calls
variable {settings : Settings} {next depth : Nat} {linked : Closure → Closure → Prop}

theorem invokeAt_succ_ensures {remaining : Nat}
    (invokes : InvokesEnsure next linked (invokeAt settings remaining)
      (invokeAt settings remaining))
    {c d : Closure} {args values : List Value} {a b : EvalState} (span : Option Span)
    (bodies : Rearranged c.body d.body)
    (scopes : Scope.Matches next linked (c.callScope args) (d.callScope values))
    (here : a.At next depth) (there : b.At next depth) :
    CallEnsures next depth linked (invokeAt settings (remaining + 1) c args span a)
      (invokeAt settings (remaining + 1) d values span b) := by
  obtain ⟨front, rest, last, body, other, sub⟩ := bodies
  rw [invokeAt, invokeAt, if_neg (by simp [body]), if_neg (by simp [other])]
  dsimp only
  cases ran : runBody (invokeAt settings remaining) c args c.body .undefined
      (a.enter settings span c.name args.length) with
  | mk outcome ended =>
    cases outcome with
    | error error => exact .error
    | ok value =>
      obtain ⟨level, each, final⟩ := runBody_assures invokes scopes c.body
        (here.enter settings span c.name args.length) ran
      obtain ⟨result, later, edited, matching, laterLevel⟩ :=
        runBody_of_assured (final front last body) rest .undefined
          (fun expr isIn => each expr (sub isIn)) (there.enter settings span d.name values.length)
      rw [other, edited]
      exact .ok matching (level.leave settings span c.name none)
        (laterLevel.leave settings span d.name none)

/-- The scopes of calls match, where functions know themselves by name only if they match. -/
theorem Closure.callScope_matches {c d : Closure} {args values : List Value}
    (name : c.name = d.name) (params : c.params = d.params)
    (snapshots : Scope.Matches next linked c.snapshot d.snapshot)
    (itself : c.name ≠ "" → Closure.Matches next linked c d)
    (given : List.Forall₂ (Value.Matches next linked) args values) :
    Scope.Matches next linked (c.callScope args) (d.callScope values) := by
  unfold Closure.callScope
  rw [← params]
  refine Scope.Matches.bindAll given c.params ?_
  unfold Closure.captured
  rw [← name]
  by_cases unnamed : c.name = ""
  · simpa [unnamed] using snapshots
  · rw [if_neg (by simpa using unnamed), if_neg (by simpa using unnamed)]
    exact snapshots.bind c.name (.function (itself unnamed))

/-- The functions that are linked have the same expressions, and run in scopes that match. -/
def SoundLinks (next : Nat) (linked : Closure → Closure → Prop) : Prop :=
  ∀ c d, linked c d → Rearranged c.body d.body ∧ ∀ args values,
    List.Forall₂ (Value.Matches next linked) args values →
      Scope.Matches next linked (c.callScope args) (d.callScope values)

theorem invokeAt_ensures (sound : SoundLinks next linked) (remaining : Nat) :
    InvokesEnsure next linked (invokeAt settings remaining) (invokeAt settings remaining) := by
  induction remaining with
  | zero =>
    intro depth c d args values a b span functions given here there
    rw [invokeAt]
    split <;> exact .error
  | succ remaining ih =>
    intro depth c d args values a b span functions given here there
    cases functions with
    | linked link =>
      obtain ⟨bodies, scopes⟩ := sound c d link
      exact invokeAt_succ_ensures ih span bodies (scopes args values given) here there
    | code identity name params body bound held =>
      by_cases empty : c.body = []
      · rw [invokeAt, if_pos (by simp [empty])]
        exact .error
      · refine invokeAt_succ_ensures ih span (body ▸ rearranged_self empty) ?_ here there
        exact Closure.callScope_matches name params ⟨bound, held⟩
          (fun _ => .code identity name params body bound held) given

end Calls

/-! ## An edited function -/

def Closure.withBody : Closure → List Expr → Closure
  | .mk id name params _ captured, body => .mk id name params body captured

/-- The functions are what a function of some name and an edited one know themselves as. -/
def Closure.Knows (closure edited c d : Closure) : Prop :=
  closure.name ≠ "" ∧ c = closure ∧ d = edited

theorem Closure.withBody_callScope_matches {next : Nat} (closure : Closure) (body : List Expr)
    {args values : List Value}
    (given : List.Forall₂ (Value.Matches next (closure.Knows (closure.withBody body))) args
      values) :
    Scope.Matches next (closure.Knows (closure.withBody body)) (closure.callScope args)
      ((closure.withBody body).callScope values) := by
  refine callScope_matches ?_ ?_ ?_ (fun named => .linked ⟨named, rfl, rfl⟩) given
  · cases closure; rfl
  · cases closure; rfl
  · cases closure
    exact Scope.matches_self _

theorem invokeAt_withBody_ensures (settings : Settings) {closure : Closure} {body : List Expr}
    (rearranged : Rearranged closure.body body) (remaining : Nat) (args : List Value)
    (span : Option Span) (state : EvalState) :
    CallEnsures state.nextId state.tracker.depth (closure.Knows (closure.withBody body))
      (invokeAt settings remaining closure args span state)
      (invokeAt settings remaining (closure.withBody body) args span state) := by
  have bodies : Rearranged closure.body (closure.withBody body).body := by
    cases closure
    exact rearranged
  have sound : SoundLinks state.nextId (closure.Knows (closure.withBody body)) := by
    rintro c d ⟨-, rfl, rfl⟩
    exact ⟨bodies, fun args values given => c.withBody_callScope_matches body given⟩
  have itself : List.Forall₂
      (Value.Matches state.nextId (closure.Knows (closure.withBody body))) args args :=
    List.forall₂_same.mpr fun value _ => value.matches_self
  have here : state.At state.nextId state.tracker.depth := ⟨rfl, Nat.le_refl _⟩
  cases remaining with
  | zero =>
    rw [invokeAt]
    split <;> exact .error
  | succ remaining =>
    exact invokeAt_succ_ensures (invokeAt_ensures sound remaining) span bodies
      (closure.withBody_callScope_matches body itself) here here

/-- The expressions of a function's body do not depend on each other.  A call succeeds exactly if
each of them succeeds alone, and then with the value of the last; it fails with the error of the
first that fails alone.  So if all succeed, a call of the function with any of its expressions in
front of the last one, in any order and any number, has the same value, but for the identities of
functions made by the call, and for the function itself where it knows itself by name. -/
theorem body_expressions_independent (settings : Settings) (closure : Closure) (args : List Value)
    (span : Option Span) (state : EvalState) (front : List Expr) (last : Expr)
    (body : closure.body = front ++ [last]) (below : state.tracker.depth < settings.limit) :
    let call (callee : Closure) :=
      (invokeAt settings (state.remaining settings) callee args span state).1
    let alone := closure.alone settings args span state
    ((∃ value, call closure = .ok value) ↔ ∀ expr ∈ closure.body, ∃ value, alone expr = .ok value) ∧
      (∀ value, call closure = .ok value →
        ∃ own, alone last = .ok own ∧ Value.Matches state.nextId unlinked value own) ∧
      (∀ error, call closure = .error error →
        ∃ before expr after, closure.body = before ++ expr :: after ∧
          (∀ earlier ∈ before, ∃ value, alone earlier = .ok value) ∧ alone expr = .error error) ∧
      ((∀ expr ∈ closure.body, ∃ value, alone expr = .ok value) → ∀ rest ⊆ closure.body,
        let edited := closure.withBody (rest ++ [last])
        ∃ value other, call closure = .ok value ∧ call edited = .ok other ∧
          Value.Matches state.nextId (closure.Knows edited) value other) := by
  intro call alone
  have outcomes : Outcomes (Value.Matches state.nextId unlinked) (call closure)
      (bodyOutcome alone closure.body .undefined) :=
    invokeAt_alone span (by simp [body]) below
  have succeeds : (∃ value, call closure = .ok value) ↔
      ∀ expr ∈ closure.body, ∃ value, alone expr = .ok value := by
    rw [← bodyOutcome_ok_iff .undefined]
    generalize call closure = x at outcomes ⊢
    generalize bodyOutcome alone closure.body .undefined = y at outcomes ⊢
    cases outcomes <;> simp
  refine ⟨succeeds, fun value called => ?_, fun error called => ?_, ?_⟩
  · rw [called, body] at outcomes
    generalize joined : bodyOutcome alone (front ++ [last]) .undefined = y at outcomes
    cases outcomes with
    | ok results => exact ⟨_, bodyOutcome_concat joined, results⟩
  · rw [called] at outcomes
    generalize joined : bodyOutcome alone closure.body .undefined = y at outcomes
    cases outcomes with
    | error error => exact bodyOutcome_error joined
  · intro each rest sub edited
    obtain ⟨value, called⟩ := succeeds.mpr each
    have ensures := invokeAt_withBody_ensures settings ⟨front, rest, last, body, rfl, sub⟩
      (state.remaining settings) args span state
    obtain ⟨other, calledEdited, matching⟩ := ensures.of_ok called
    exact ⟨value, other, called, calledEdited, matching⟩

def returnsItself : Closure :=
  .mk 0 "f" ["again"]
    [.define Span.zero "g" (.function Span.zero [] []),
      .guarded Span.zero (.read Span.zero "again") (.call Span.zero (.read Span.zero "f") []),
      .read Span.zero "f"] []

theorem body_expressions_independent_returnsItself :
    let settings : Settings := ⟨2, false, ""⟩
    let state : EvalState := ⟨Tracker.zero, 1, []⟩
    let edited := returnsItself.withBody [.read Span.zero "f"]
    let call (callee : Closure) :=
      (invokeAt settings (state.remaining settings) callee [.boolean true] none state).1
    state.tracker.depth < settings.limit ∧
      ∃ value other, call returnsItself = .ok value ∧ call edited = .ok other ∧
        Value.Matches state.nextId (returnsItself.Knows edited) value other := by
  intro settings state edited call
  have below : state.tracker.depth < settings.limit := by decide
  have called : call returnsItself = .ok (.function returnsItself) := rfl
  obtain ⟨succeeds, -, -, editing⟩ := body_expressions_independent settings returnsItself
    [.boolean true] none state returnsItself.body.dropLast (.read Span.zero "f") rfl below
  exact ⟨below, editing (succeeds.mp ⟨_, called⟩) [] (List.nil_subset _)⟩

end Sapling
