import Sapling.Proofs.Closures
import Sapling.Proofs.Simulation

/-!
# Names that are never read

A program is executed in two scopes that give the names it reads the same values.  The functions it
makes capture all of the scope they are made in, so those of the two executions differ; they may be
handed to functions that the scopes held before, kept, and called later.  What matters of a captured
scope is only what the code of the function reads there (`Closure.Agrees`), and in that the two
executions agree throughout.  So they cannot be told apart by errors, by the values shown, by
statistics or by events.
-/

set_option autoImplicit false

namespace Sapling

/-- Functions of the same code, made where the names that it reads have values that agree. -/
inductive Closure.Agrees : Closure → Closure → Prop
  | intro {c d : Closure} (name : c.name = d.name) (params : c.params = d.params)
      (body : c.body = d.body)
      (snapshots : ∀ word ∈ Expr.readsAll c.body,
        Value.Lift Agrees (c.snapshot.get word) (d.snapshot.get word)) : Agrees c d

def Scope.Agrees (names : List String) (s t : Scope) : Prop :=
  ∀ name ∈ names, Value.Lift Closure.Agrees (s.get name) (t.get name)

theorem Value.agrees_self (value : Value) : Value.Lift Closure.Agrees value value := by
  have all : value.Each fun _ => True := value.each_of_forall fun _ => trivial
  induction all with
  | undefined => exact .undefined
  | number value => exact .number value
  | boolean value => exact .boolean value
  | @function closure _ inside ih =>
    refine .function (.intro rfl rfl rfl fun word _ => ?_)
    -- a name that is not bound has no value, and any other has one that is inside the function
    unfold Scope.get
    cases found : closure.snapshot.find? word with
    | none => exact .undefined
    | some held => exact ih (word, held) (Scope.mem_of_find? found)

theorem Scope.Agrees.bind {names : List String} {s t : Scope} (agree : Scope.Agrees names s t)
    (name : String) {v w : Value} (values : Value.Lift Closure.Agrees v w) :
    Scope.Agrees names (s.bind name v) (t.bind name w) := by
  intro other asked
  rw [Scope.get_bind, Scope.get_bind]
  by_cases same : name = other
  · rw [if_pos same, if_pos same]
    exact values
  · rw [if_neg same, if_neg same]
    exact agree other asked

/-- States that differ only in the identities left for functions. -/
def EvalState.Alike (a b : EvalState) : Prop := a.tracker = b.tracker ∧ a.events = b.events

theorem EvalState.Alike.emit {a b : EvalState} (alike : a.Alike b) (settings : Settings)
    (span : Option Span) (step : TraceStep) :
    (a.emit settings span step).Alike (b.emit settings span step) := by
  obtain ⟨tracker, events⟩ := alike
  unfold EvalState.emit
  split
  · exact ⟨tracker, congrArg (⟨settings.runId, span, step⟩ :: ·) events⟩
  · exact ⟨tracker, events⟩

def Simulation.unread (settings : Settings) : Simulation settings settings where
  closure := Closure.Agrees
  scope := Scope.Agrees
  state := EvalState.Alike
  limit := rfl
  depth := by
    intro a b alike
    rw [alike.1]
  code := by
    rintro c d ⟨name, params, body, -⟩
    exact ⟨name, params, body⟩
  snapshot := by
    rintro c d ⟨-, -, -, snapshots⟩
    exact snapshots
  named := by
    rintro ⟨id, own, params, body, made⟩ ⟨id', own', params', body', made'⟩ name
      ⟨-, sameParams, sameBody, snapshots⟩
    exact .intro rfl sameParams sameBody snapshots
  get := by
    intro names s t name scopes asked
    exact scopes name asked
  bind := by
    intro names s t name v w scopes values
    exact scopes.bind name values
  make := by
    intro names s t a b params body reads scopes states
    exact .intro rfl rfl rfl fun word asked => scopes word (reads asked)
  fresh := by
    intro a b alike
    exact alike
  enter := by
    intro a b span name args alike
    have entered : EvalState.Alike { a with tracker := b.tracker.enter }
        { b with tracker := b.tracker.enter } := ⟨rfl, alike.2⟩
    unfold EvalState.enter
    rw [alike.1]
    exact entered.emit settings span _
  leave := by
    intro a b span name error alike
    have closed := alike.emit settings span (.callEnd name error)
    exact ⟨congrArg Tracker.leave closed.1, closed.2⟩

def Program.reads (program : Program) : List String := Expr.readsAll program.statements

/-- Values of one type that look the same, for people and in JSON. -/
structure Value.LooksLike (v w : Value) : Prop where
  type : v.typeName = w.typeName
  text : v.text = w.text
  json : v.json = w.json

theorem Value.Lift.looksLike {v w : Value} (agree : Value.Lift Closure.Agrees v w) :
    v.LooksLike w := by
  cases agree with
  | undefined => exact ⟨rfl, rfl, rfl⟩
  | number value => exact ⟨rfl, rfl, rfl⟩
  | boolean value => exact ⟨rfl, rfl, rfl⟩
  | function functions =>
    obtain ⟨name, params, -, -⟩ := functions
    refine ⟨rfl, ?_, ?_⟩
    · rw [Value.text, Value.text, name, params]
    · rw [Value.json, Value.json, name, params]

theorem Program.execute_unread (program : Program) (settings : Settings) {s t : Scope}
    (agree : Scope.Agrees program.reads s t) (firstId secondId : Nat) :
    (Simulation.unread settings).Executes program.reads
      (program.execute settings s firstId) (program.execute settings t secondId) := by
  let place := program.span.known?
  have start : (EvalState.start firstId).Alike (EvalState.start secondId) := ⟨rfl, rfl⟩
  have opening : ∀ {a b : EvalState} (index : Nat) (statement : Expr), a.Alike b →
      (a.openStatement settings (0 + index) statement).Alike
        (b.openStatement settings index statement) := by
    intro a b index statement alike
    have opened := alike.emit settings statement.span.known? (.statementStart index statement.kind)
    rw [Nat.zero_add]
    refine ⟨?_, opened.2⟩
    rw [EvalState.openStatement_tracker, EvalState.openStatement_tracker, alike.1]
  have closing : ∀ {a b : EvalState} (index : Nat) (statement : Expr), a.Alike b →
      (a.closeStatement settings (0 + index) statement).Alike
        (b.closeStatement settings index statement) := by
    intro a b index statement alike
    rw [Nat.zero_add]
    exact alike.emit settings statement.span.known? (.statementEnd index)
  obtain ⟨values, error, scopes, alike⟩ :=
    (Simulation.unread settings).executeFrom_keeps 0 opening closing program.statements 0
      (List.Subset.refl _) agree (start.emit settings place .runStart)
  refine ⟨values, error, scopes, ?_⟩
  unfold Program.execute
  dsimp only
  rw [← error]
  exact EvalState.Alike.emit alike settings place _

/-- What a program never reads cannot influence it.  In scopes that give the names it reads the same
values, where a name that is not bound counts as one without value, its executions have the same
error or none, as many values and the same to look at, the same statistics and the same events.
This holds whichever identities are left for the functions that it makes. -/
theorem Program.unread_names_without_influence (program : Program) (settings : Settings)
    (s t : Scope) (agree : ∀ name ∈ program.reads, s.get name = t.get name)
    (firstId secondId : Nat) :
    let first := program.execute settings s firstId
    let second := program.execute settings t secondId
    first.error = second.error ∧ List.Forall₂ Value.LooksLike first.values second.values ∧
      first.stats = second.stats ∧ first.events = second.events := by
  intro first second
  have related : Scope.Agrees program.reads s t := by
    intro name asked
    rw [agree name asked]
    exact (t.get name).agrees_self
  obtain ⟨values, error, -, tracker, events⟩ :=
    program.execute_unread settings related firstId secondId
  refine ⟨error, values.imp fun _ _ => Value.Lift.looksLike, tracker, ?_⟩
  exact congrArg List.reverse events

def Program.keepsReading : Program :=
  ⟨Span.zero,
    [.define Span.zero "f" (.function Span.zero [] [.read Span.zero "x", .read Span.zero "z"]),
      .call Span.zero (.read Span.zero "f") []]⟩

theorem Program.unread_names_without_influence_keepsReading :
    let s : Scope := [("x", .number 1)]
    let t : Scope := [("x", .number 1), ("y", .boolean true), ("z", .undefined)]
    (∀ name ∈ keepsReading.reads, s.get name = t.get name) ∧
      List.Forall₂ Value.LooksLike (keepsReading.execute ⟨1, true, ""⟩ s 0).values
        (keepsReading.execute ⟨1, true, ""⟩ t 0).values := by
  intro s t
  have agree : ∀ name ∈ keepsReading.reads, s.get name = t.get name := by
    simp only [keepsReading, Program.reads, Expr.readsAll, Expr.reads, List.append_nil,
      List.cons_append, List.nil_append, List.forall_mem_cons]
    exact ⟨rfl, rfl, rfl, fun _ member => absurd member List.not_mem_nil⟩
  exact ⟨agree, (keepsReading.unread_names_without_influence ⟨1, true, ""⟩ s t agree 0 0).2.1⟩

end Sapling
