import Sapling.Proofs.Closures
import Sapling.Proofs.Simulation
import Sapling.Proofs.Trees

/-!
# Expressions of a body

Each expression of a function's body runs in a scope of its own.  The expressions before it have
only moved the next identity, the statistics and the events on, and no evaluation depends on these.
So a call comes to what its body expressions come to when each is evaluated alone, right after the
call was opened (`runBody_alone`).

The functions that are made on the way have other identities then.  `Closure.Matches` is what
remains: the same code, made in scopes of the same names and of values that match, and the same
identity if it was given away before.
-/

set_option autoImplicit false

namespace Sapling

/-! ## The same but for new identities -/

/-- The identities are the same, or none of them was given away before `next`. -/
def SameIdentity (next first second : Nat) : Prop :=
  first = second ∨ next ≤ first ∧ next ≤ second

/-- Functions that are linked, or of the same code, made in scopes that match, and with the same
identity if it is one from before `next`. -/
inductive Closure.Matches (next : Nat) (linked : Closure → Closure → Prop) :
    Closure → Closure → Prop
  | linked {c d : Closure} (link : linked c d) : Matches next linked c d
  | code {c d : Closure} (identity : SameIdentity next c.id d.id) (name : c.name = d.name)
      (params : c.params = d.params) (body : c.body = d.body)
      (bound : ∀ word, c.snapshot.has word = d.snapshot.has word)
      (values : ∀ word,
        Value.Lift (Matches next linked) (c.snapshot.get word) (d.snapshot.get word)) :
      Matches next linked c d

abbrev Value.Matches (next : Nat) (linked : Closure → Closure → Prop) : Value → Value → Prop :=
  Value.Lift (Closure.Matches next linked)

structure Scope.Matches (next : Nat) (linked : Closure → Closure → Prop) (s t : Scope) : Prop where
  bound (word : String) : s.has word = t.has word
  values (word : String) : Value.Matches next linked (s.get word) (t.get word)

section Matches
variable {next : Nat} {linked : Closure → Closure → Prop}

theorem Value.matches_self (value : Value) : Value.Matches next linked value value := by
  have all : value.Each fun _ => True := value.each_of_forall fun _ => trivial
  induction all with
  | undefined => exact .undefined
  | number value => exact .number value
  | boolean value => exact .boolean value
  | @function closure _ inside ih =>
    refine .function (.code (.inl rfl) rfl rfl rfl (fun _ => rfl) fun word => ?_)
    unfold Scope.get
    cases found : closure.snapshot.find? word with
    | none => exact .undefined
    | some held => exact ih (word, held) (Scope.mem_of_find? found)

theorem Scope.matches_self (scope : Scope) : Scope.Matches next linked scope scope :=
  ⟨fun _ => rfl, fun _ => Value.matches_self _⟩

theorem Scope.Matches.bind {s t : Scope} (scopes : Scope.Matches next linked s t) (name : String)
    {v w : Value} (values : Value.Matches next linked v w) :
    Scope.Matches next linked (s.bind name v) (t.bind name w) := by
  refine ⟨fun word => ?_, fun word => ?_⟩
  · rw [Bool.eq_iff_iff, Scope.has_bind, Scope.has_bind, scopes.bound]
  · rw [Scope.get_bind, Scope.get_bind]
    by_cases same : name = word
    · rw [if_pos same, if_pos same]
      exact values
    · rw [if_neg same, if_neg same]
      exact scopes.values word

theorem Scope.Matches.bindAll {values others : List Value}
    (given : List.Forall₂ (Value.Matches next linked) values others) (params : List String) :
    ∀ {s t : Scope}, Scope.Matches next linked s t →
      Scope.Matches next linked (s.bindAll params values) (t.bindAll params others) := by
  induction params generalizing values others with
  | nil => exact id
  | cons param params ih =>
    intro s t scopes
    cases given with
    | nil => exact ih .nil (scopes.bind param .undefined)
    | cons head tail => exact ih tail (scopes.bind param head)

theorem Closure.matches_made {s t : Scope} {a b : Nat} (name : String) (params : List String)
    (body : List Expr) (left : next ≤ a) (right : next ≤ b)
    (scopes : Scope.Matches next linked s t) :
    Closure.Matches next linked (.mk a name params body s) (.mk b name params body t) :=
  .code (.inr ⟨left, right⟩) rfl rfl rfl scopes.bound scopes.values

end Matches

def unlinked (_ _ : Closure) : Prop := False

/-- So many calls are open, and the identities before `next` have been given away. -/
structure EvalState.At (next depth : Nat) (state : EvalState) : Prop where
  depth_eq : state.tracker.depth = depth
  next_le : next ≤ state.nextId

section At
variable {next depth : Nat} {state : EvalState}

theorem EvalState.At.fresh (level : state.At next depth) :
    EvalState.At next depth { state with nextId := state.nextId + 1 } :=
  ⟨level.depth_eq, Nat.le_succ_of_le level.next_le⟩

theorem EvalState.At.enter (level : state.At next depth) (settings : Settings)
    (span : Option Span) (name : String) (args : Nat) :
    (state.enter settings span name args).At next (depth + 1) := by
  refine ⟨?_, ?_⟩
  · rw [EvalState.enter_tracker, ← level.depth_eq]
    rfl
  · rw [EvalState.enter_nextId]
    exact level.next_le

theorem EvalState.At.leave (level : state.At next depth) (settings : Settings)
    (span : Option Span) (name : String) (error : Option String) :
    (state.leave settings span name error).At next (depth - 1) := by
  refine ⟨?_, ?_⟩
  · rw [EvalState.leave_tracker, ← level.depth_eq]
    rfl
  · rw [EvalState.leave_nextId]
    exact level.next_le

end At

/-- Evaluations while the same calls are open, under settings that allow the same calls. -/
def Simulation.beside {first second : Settings} (limit : first.limit = second.limit) (next : Nat) :
    Simulation first second where
  closure := Closure.Matches next unlinked
  scope _ := Scope.Matches next unlinked
  state a b := ∃ depth, a.At next depth ∧ b.At next depth
  limit := limit
  depth := by
    rintro a b ⟨depth, here, there⟩
    exact here.depth_eq.trans there.depth_eq.symm
  code := by
    rintro c d (link | ⟨-, name, params, body, -, -⟩)
    · exact link.elim
    · exact ⟨name, params, body⟩
  snapshot := by
    rintro c d (link | ⟨-, -, -, -, bound, values⟩)
    · exact link.elim
    · exact ⟨bound, values⟩
  named := by
    rintro ⟨id, own, params, body, made⟩ ⟨id', own', params', body', made'⟩ name
      (link | ⟨identity, -, sameParams, sameBody, bound, values⟩)
    · exact link.elim
    · exact .code identity rfl sameParams sameBody bound values
  get scopes _ := scopes.values _
  bind name _ _ scopes values := scopes.bind name values
  make := by
    rintro names s t a b params body - scopes ⟨depth, here, there⟩
    exact Closure.matches_made "" params body here.next_le there.next_le scopes
  fresh := by
    rintro a b ⟨depth, here, there⟩
    exact ⟨depth, here.fresh, there.fresh⟩
  enter := by
    rintro a b span name args ⟨depth, here, there⟩
    exact ⟨depth + 1, here.enter first span name args, there.enter second span name args⟩
  leave := by
    rintro a b span name error ⟨depth, here, there⟩
    exact ⟨depth - 1, here.leave first span name error, there.leave second span name error⟩

/-! ## Each expression alone -/

/-- What an expression of a function's body comes to when it is evaluated alone, right after the
call was opened. -/
def Closure.alone (settings : Settings) (closure : Closure) (args : List Value)
    (span : Option Span) (state : EvalState) (expr : Expr) : Outcome :=
  (expr.evaluate settings (closure.callScope args)
    (state.enter settings span closure.name args.length)).outcome

def bodyOutcome (alone : Expr → Outcome) : List Expr → Value → Outcome
  | [], last => .ok last
  | expr :: rest, _ =>
    match alone expr with
    | .error error => .error error
    | .ok value => bodyOutcome alone rest value

section BodyOutcome
variable {alone : Expr → Outcome} {body : List Expr}

theorem bodyOutcome_ok_iff : ∀ (last : Value),
    (∃ value, bodyOutcome alone body last = .ok value) ↔
      ∀ expr ∈ body, ∃ value, alone expr = .ok value := by
  induction body with
  | nil => simp [bodyOutcome]
  | cons expr rest ih =>
    intro last
    rw [bodyOutcome, List.forall_mem_cons]
    cases first : alone expr with
    | error error => simp
    | ok value => simpa using ih value

theorem bodyOutcome_concat {final : Expr} {value : Value} : ∀ {last : Value},
    bodyOutcome alone (body ++ [final]) last = .ok value → alone final = .ok value := by
  induction body with
  | nil =>
    intro last succeeds
    rw [List.nil_append, bodyOutcome] at succeeds
    split at succeeds
    · cases succeeds
    · rename_i found only
      cases succeeds
      exact only
  | cons expr rest ih =>
    intro last succeeds
    rw [List.cons_append, bodyOutcome] at succeeds
    split at succeeds
    · cases succeeds
    · exact ih succeeds

theorem bodyOutcome_error {error : EvalError} : ∀ {last : Value},
    bodyOutcome alone body last = .error error →
      ∃ before expr after, body = before ++ expr :: after ∧
        (∀ earlier ∈ before, ∃ value, alone earlier = .ok value) ∧ alone expr = .error error := by
  induction body with
  | nil => exact nofun
  | cons expr rest ih =>
    intro last fails
    rw [bodyOutcome] at fails
    split at fails
    · rename_i own first
      cases fails
      exact ⟨[], expr, rest, rfl, nofun, first⟩
    · rename_i value first
      obtain ⟨before, failing, after, rfl, earlier, fails⟩ := ih fails
      exact ⟨expr :: before, failing, after, rfl,
        List.forall_mem_cons.mpr ⟨⟨value, first⟩, earlier⟩, fails⟩

end BodyOutcome

section Alone
variable {settings : Settings} {closure : Closure} {args : List Value}

/-- What came before an expression of a body makes no difference to it. -/
theorem runBody_alone {next depth : Nat} {entered : EvalState} (level : entered.At next depth)
    (body : List Expr) : ∀ {last final : Value} {state : EvalState}, state.At next depth →
      Value.Matches next unlinked last final →
      Outcomes (Value.Matches next unlinked)
        (runBody (invokeAt settings (entered.remaining settings)) closure args body last state).1
        (bodyOutcome (fun expr =>
          (expr.evaluate settings (closure.callScope args) entered).outcome) body final) := by
  induction body with
  | nil =>
    intro last final state here lasts
    exact .ok lasts
  | cons expr rest ih =>
    intro last final state here lasts
    let sim : Simulation settings settings := Simulation.beside rfl next
    have alone : expr.evaluate settings (closure.callScope args) entered =
        expr.evalWith (invokeAt settings (entered.remaining settings)) (closure.callScope args)
          entered := by
      rw [Expr.evaluate_eq_eval, Expr.eval]
    obtain ⟨outcomes, -, level', after, aloneAfter⟩ :=
      Simulation.evalWith_keeps (sim.invokeAt_keeps (entered.remaining settings)) expr
        (List.Subset.refl _) (Scope.matches_self (closure.callScope args)) ⟨depth, here, level⟩
    -- both ended with as many calls open as there were after the call was opened
    obtain rfl : level' = depth := by
      rw [← aloneAfter.depth_eq, ← level.depth_eq, ← alone]
      exact expr.evaluate_depth settings _ entered
    rw [runBody, bodyOutcome, alone]
    generalize expr.evalWith (invokeAt settings (entered.remaining settings))
      (closure.callScope args) state = x at outcomes after ⊢
    generalize (expr.evalWith (invokeAt settings (entered.remaining settings))
      (closure.callScope args) entered).outcome = other at outcomes ⊢
    obtain ⟨outcome, scope, later⟩ := x
    cases outcomes with
    | error error => exact .error error
    | ok results => exact ih after results

theorem invokeAt_opens {state : EvalState} (span : Option Span) (nonempty : closure.body ≠ [])
    (below : state.tracker.depth < settings.limit) :
    (invokeAt settings (state.remaining settings) closure args span state).1 =
      let entered := state.enter settings span closure.name args.length
      (runBody (invokeAt settings (entered.remaining settings)) closure args closure.body
        .undefined entered).1 := by
  have more : state.remaining settings =
      (state.enter settings span closure.name args.length).remaining settings + 1 := by
    simp only [EvalState.remaining, EvalState.enter_tracker, Tracker.enter]
    omega
  rw [more, invokeAt, if_neg (by simpa using nonempty)]

theorem invokeAt_alone {state : EvalState} (span : Option Span) (nonempty : closure.body ≠ [])
    (below : state.tracker.depth < settings.limit) :
    Outcomes (Value.Matches state.nextId unlinked)
      (invokeAt settings (state.remaining settings) closure args span state).1
      (bodyOutcome (closure.alone settings args span state) closure.body .undefined) := by
  have here : state.At state.nextId state.tracker.depth := ⟨rfl, Nat.le_refl _⟩
  have entered := here.enter settings span closure.name args.length
  rw [invokeAt_opens span nonempty below]
  exact runBody_alone entered closure.body entered .undefined

end Alone

end Sapling
