import Sapling.Proofs.Closures
import Sapling.Proofs.Simulation

/-!
# Identities of functions

A function that is made takes the next identity, so what else has been done before decides which one
it gets.  Nothing in an evaluation looks at identities.  When they are counted from another number,
and statistics from other ones, the evaluation goes the same way: values are the same, with the
identities of the functions made since moved along, and the same work is added to the statistics
(`Simulation.elsewhere`).
-/

set_option autoImplicit false

namespace Sapling

/-! ## Moving identities -/

mutual

def Value.rename (move : Nat → Nat) : Value → Value
  | .undefined => .undefined
  | .number value => .number value
  | .boolean value => .boolean value
  | .function closure => .function (closure.rename move)

def Closure.rename (move : Nat → Nat) : Closure → Closure
  | .mk id name params body captured =>
    .mk (move id) name params body (Scope.rename move captured)

def Scope.rename (move : Nat → Nat) : Scope → Scope
  | [] => []
  | (name, value) :: rest => (name, value.rename move) :: Scope.rename move rest

end

section Rename
variable (move : Nat → Nat)

theorem Scope.find?_rename (scope : Scope) (name : String) :
    (scope.rename move).find? name = (scope.find? name).map (Value.rename move) := by
  induction scope with
  | nil => rfl
  | cons binding rest ih =>
    obtain ⟨bound, value⟩ := binding
    rw [Scope.rename, Scope.find?, Scope.find?, ih]
    split <;> rfl

theorem Scope.get_rename (scope : Scope) (name : String) :
    (scope.rename move).get name = (scope.get name).rename move := by
  unfold Scope.get
  rw [find?_rename]
  cases scope.find? name <;> rfl

theorem Scope.bind_rename (scope : Scope) (name : String) (value : Value) :
    (scope.bind name value).rename move =
      (scope.rename move).bind name (value.rename move) := by
  induction scope with
  | nil => rfl
  | cons binding rest ih =>
    obtain ⟨bound, old⟩ := binding
    rw [Scope.rename, Scope.bind, Scope.bind]
    split
    · rfl
    · split
      · rfl
      · rw [Scope.rename, ih]

theorem Closure.named_rename (closure : Closure) (name : String) :
    (closure.named name).rename move = (closure.rename move).named name := by
  cases closure
  rfl

theorem Closure.snapshot_rename (closure : Closure) :
    (closure.rename move).snapshot = closure.snapshot.rename move := by
  cases closure
  rfl

theorem Closure.code_rename (closure : Closure) :
    closure.name = (closure.rename move).name ∧ closure.params = (closure.rename move).params ∧
      closure.body = (closure.rename move).body := by
  cases closure
  exact ⟨rfl, rfl, rfl⟩

variable {move}

theorem Scope.rename_eq_self {scope : Scope}
    (fixed : ∀ binding ∈ scope, binding.2.rename move = binding.2) :
    scope.rename move = scope := by
  induction scope with
  | nil => rfl
  | cons binding rest ih =>
    obtain ⟨bound, value⟩ := binding
    obtain ⟨here, others⟩ := List.forall_mem_cons.mp fixed
    rw [Scope.rename, here, ih others]

theorem Value.rename_eq_self {value : Value}
    (fixed : value.Each fun closure => move closure.id = closure.id) :
    value.rename move = value := by
  induction fixed with
  | undefined => rfl
  | number value => rfl
  | boolean value => rfl
  | @function closure here inside ih =>
    obtain ⟨id, name, params, body, captured⟩ := closure
    have same : move id = id := here
    have captures : Scope.rename move captured = captured := Scope.rename_eq_self ih
    rw [Value.rename, Closure.rename, same, captures]

theorem Value.lift_rename_iff {v w : Value} :
    Value.Lift (fun c d => d = c.rename move) v w ↔ w = v.rename move := by
  constructor
  · intro values
    cases values with
    | undefined => rfl
    | number value => rfl
    | boolean value => rfl
    | function functions => rw [functions, Value.rename]
  · rintro rfl
    cases v with
    | undefined => exact .undefined
    | number value => exact .number value
    | boolean value => exact .boolean value
    | function closure => exact .function rfl

theorem Outcomes.eq_map_rename {x y : Outcome}
    (outcomes : Outcomes (Value.Lift fun c d => d = c.rename move) x y) :
    y = x.map (Value.rename move) := by
  cases outcomes with
  | ok results =>
    rw [Value.lift_rename_iff.mp results]
    rfl
  | error error => rfl

end Rename

/-! ## The same work from another start -/

/-- The statistics of work done after `before`; the calls now open count from none. -/
def Tracker.onto (work before : Tracker) : Tracker :=
  ⟨work.depth, max before.maxSeen work.maxSeen, before.calls + work.calls,
    before.statements + work.statements⟩

theorem Tracker.enter_onto (work before : Tracker) :
    (work.onto before).enter = work.enter.onto before := by
  simp only [Tracker.enter, Tracker.onto, Nat.max_assoc, Nat.add_assoc]

theorem Tracker.leave_onto (work before : Tracker) :
    (work.onto before).leave = work.leave.onto before := rfl

theorem Tracker.onto_zero (work : Tracker) : work.onto Tracker.zero = work := by
  simp [Tracker.onto, Tracker.zero]

def Tracker.idle (depth : Nat) : Tracker := ⟨depth, 0, 0, 0⟩

theorem Tracker.idle_onto {before : Tracker} {depth : Nat} (opened : before.depth = depth) :
    (Tracker.idle depth).onto before = before := by
  subst opened
  simp [Tracker.onto, Tracker.idle]

/-- Identities from `old` on are counted from `new`. -/
def countFrom (old new id : Nat) : Nat := if id < old then id else id - old + new

theorem countFrom_of_lt {old new id : Nat} (known : id < old) : countFrom old new id = id :=
  if_pos known

theorem countFrom_add (old new made : Nat) : countFrom old new (old + made) = new + made := by
  unfold countFrom
  rw [if_neg (by omega)]
  omega

theorem countFrom_self (old id : Nat) : countFrom old old id = id := by
  unfold countFrom
  split <;> omega

/-- What a start leaves to be seen later: the statistics, and the identities given away. -/
structure Start where
  tracker : Tracker
  nextId : Nat

def EvalState.SameWork (here there : Start) (a b : EvalState) : Prop :=
  ∃ (work : Tracker) (made : Nat),
    a.tracker = work.onto here.tracker ∧ b.tracker = work.onto there.tracker ∧
      a.nextId = here.nextId + made ∧ b.nextId = there.nextId + made

/-- Evaluations that begin at two starts, under settings that allow the same calls. -/
def Simulation.elsewhere {first second : Settings} (limit : first.limit = second.limit)
    (here there : Start) : Simulation first second where
  closure c d := d = c.rename (countFrom here.nextId there.nextId)
  scope _ s t := t = s.rename (countFrom here.nextId there.nextId)
  state := EvalState.SameWork here there
  limit := limit
  depth := by
    rintro a b ⟨work, made, first, second, -, -⟩
    rw [first, second]
    rfl
  code := by
    rintro c d rfl
    exact c.code_rename _
  snapshot := by
    rintro c d rfl
    exact c.snapshot_rename _
  named := by
    rintro c d name rfl
    exact (c.named_rename _ name).symm
  get := by
    rintro names s t name rfl asked
    exact Value.lift_rename_iff.mpr (Scope.get_rename _ s name)
  bind := by
    rintro names s t name v w rfl values
    rw [Value.lift_rename_iff.mp values, Scope.bind_rename]
  make := by
    rintro names s t a b params body reads rfl ⟨work, made, -, -, firstId, secondId⟩
    rw [Closure.rename, firstId, secondId, countFrom_add]
  fresh := by
    rintro a b ⟨work, made, first, second, firstId, secondId⟩
    refine ⟨work, made + 1, first, second, ?_, ?_⟩
    · simp only [firstId, Nat.add_assoc]
    · simp only [secondId, Nat.add_assoc]
  enter := by
    rintro a b span name args ⟨work, made, first, second, firstId, secondId⟩
    refine ⟨work.enter, made, ?_, ?_, ?_, ?_⟩
    · rw [EvalState.enter_tracker, first, Tracker.enter_onto]
    · rw [EvalState.enter_tracker, second, Tracker.enter_onto]
    · rw [EvalState.enter_nextId, firstId]
    · rw [EvalState.enter_nextId, secondId]
  leave := by
    rintro a b span name error ⟨work, made, first, second, firstId, secondId⟩
    refine ⟨work.leave, made, ?_, ?_, ?_, ?_⟩
    · rw [EvalState.leave_tracker, first, Tracker.leave_onto]
    · rw [EvalState.leave_tracker, second, Tracker.leave_onto]
    · rw [EvalState.leave_nextId, firstId]
    · rw [EvalState.leave_nextId, secondId]

end Sapling
