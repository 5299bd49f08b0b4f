import Sapling.Value

/-!
# Functions inside values

A function carries the bindings it was made in, and these may hold further functions.
`Value.Each` says something of every function that can be reached in this way; building the scope of
a call keeps it (`Closure.callScope_each`).  A function that sees itself needs no more than one that
does not, since its own binding is made only when its scope is built.

The second part says which names are bound after a binding has been made.
-/

set_option autoImplicit false

namespace Sapling

/-- Every function in a value satisfies `good`, those inside other functions included. -/
inductive Value.Each (good : Closure → Prop) : Value → Prop
  | undefined : Each good .undefined
  | number (value : Float) : Each good (.number value)
  | boolean (value : Bool) : Each good (.boolean value)
  | function {closure : Closure} (here : good closure)
      (inside : ∀ binding ∈ closure.snapshot, Each good binding.2) : Each good (.function closure)

def Scope.Each (good : Closure → Prop) (scope : Scope) : Prop :=
  ∀ binding ∈ scope, binding.2.Each good

theorem Value.Each.mono {good better : Closure → Prop}
    (implies : ∀ closure, good closure → better closure) {value : Value}
    (each : value.Each good) : value.Each better := by
  induction each with
  | undefined => exact .undefined
  | number value => exact .number value
  | boolean value => exact .boolean value
  | function here inside ih => exact .function (implies _ here) ih

mutual

theorem Value.each_of_forall {good : Closure → Prop} (all : ∀ closure, good closure) :
    ∀ value : Value, value.Each good
  | .undefined => .undefined
  | .number value => .number value
  | .boolean value => .boolean value
  | .function (.mk _ _ _ _ captured) => .function (all _) (each_of_forall_mem all captured)

theorem Value.each_of_forall_mem {good : Closure → Prop} (all : ∀ closure, good closure) :
    ∀ captured : List (String × Value), ∀ binding ∈ captured, binding.2.Each good
  | [] => fun _ member => absurd member List.not_mem_nil
  | (_, value) :: rest =>
    List.forall_mem_cons.mpr
      ⟨value.each_of_forall all, Value.each_of_forall_mem all rest⟩

end

namespace Scope

variable {good : Closure → Prop}

theorem Each.mono {better : Closure → Prop} (implies : ∀ closure, good closure → better closure)
    {scope : Scope} (each : scope.Each good) : scope.Each better :=
  fun binding member => (each binding member).mono implies

theorem empty_each : Scope.empty.Each good := by
  intro binding member
  cases member

theorem mem_of_find? {scope : Scope} {name : String} {value : Value}
    (found : scope.find? name = some value) : (name, value) ∈ scope := by
  induction scope with
  | nil => cases found
  | cons binding rest ih =>
    obtain ⟨bound, old⟩ := binding
    simp only [Scope.find?] at found
    split at found
    · rename_i same
      cases found
      exact same ▸ List.mem_cons_self
    · exact List.mem_cons_of_mem _ (ih found)

theorem Each.find? {scope : Scope} (each : scope.Each good) {name : String} {value : Value}
    (found : scope.find? name = some value) : value.Each good :=
  each _ (mem_of_find? found)

theorem Each.get {scope : Scope} (each : scope.Each good) (name : String) :
    (scope.get name).Each good := by
  unfold Scope.get
  cases found : scope.find? name with
  | none => exact .undefined
  | some value => exact each.find? found

theorem mem_bind {scope : Scope} {name : String} {value : Value} {binding : String × Value}
    (member : binding ∈ scope.bind name value) : binding = (name, value) ∨ binding ∈ scope := by
  induction scope with
  | nil => exact .inl (List.mem_singleton.mp member)
  | cons first rest ih =>
    obtain ⟨bound, old⟩ := first
    simp only [Scope.bind] at member
    split at member
    · exact List.mem_cons.mp member
    · split at member
      · rcases List.mem_cons.mp member with same | later
        · exact .inl same
        · exact .inr (List.mem_cons_of_mem _ later)
      · rcases List.mem_cons.mp member with same | later
        · exact .inr (same ▸ List.mem_cons_self)
        · exact (ih later).imp_right (List.mem_cons_of_mem _)

theorem Each.bind {scope : Scope} (each : scope.Each good) (name : String) {value : Value}
    (valueEach : value.Each good) : (scope.bind name value).Each good := by
  intro binding member
  rcases mem_bind member with rfl | old
  · exact valueEach
  · exact each binding old

theorem Each.bindAll (params : List String) :
    ∀ {scope : Scope} (args : List Value), scope.Each good → (∀ arg ∈ args, arg.Each good) →
      (scope.bindAll params args).Each good := by
  induction params with
  | nil =>
    intro scope args each argsEach
    exact each
  | cons param params ih =>
    intro scope args each argsEach
    cases args with
    | nil => exact ih [] (each.bind param .undefined) argsEach
    | cons arg args =>
      refine ih args (each.bind param (argsEach arg List.mem_cons_self)) ?_
      exact fun other member => argsEach other (List.mem_cons_of_mem arg member)

end Scope

namespace Closure

variable {good : Closure → Prop}

theorem captured_each {closure : Closure} (each : (Value.function closure).Each good) :
    closure.captured.Each good := by
  cases each with
  | function here inside =>
    unfold captured
    split
    · exact inside
    · exact Scope.Each.bind inside closure.name (.function here inside)

theorem callScope_each {closure : Closure} (each : (Value.function closure).Each good)
    {args : List Value} (argsEach : ∀ arg ∈ args, arg.Each good) :
    (closure.callScope args).Each good :=
  Scope.Each.bindAll closure.params args (captured_each each) argsEach

end Closure

/-! ## Names bound -/

namespace Scope

theorem find?_bind (scope : Scope) (name other : String) (value : Value) :
    (scope.bind name value).find? other =
      if name = other then some value else scope.find? other := by
  induction scope with
  | nil => rfl
  | cons first rest ih =>
    obtain ⟨bound, old⟩ := first
    simp only [Scope.bind]
    split
    · rfl
    · split
      · rename_i same
        subst same
        simp only [Scope.find?]
        split <;> rfl
      · rename_i different
        simp only [Scope.find?, ih]
        by_cases here : bound = other
        · have : name ≠ other := fun same => different (same.trans here.symm)
          simp [here, this]
        · simp [here]

theorem get_bind (scope : Scope) (name other : String) (value : Value) :
    (scope.bind name value).get other = if name = other then value else scope.get other := by
  unfold Scope.get
  rw [find?_bind]
  split <;> rfl

theorem has_bind {scope : Scope} {name other : String} {value : Value} :
    (scope.bind name value).has other = true ↔ name = other ∨ scope.has other = true := by
  unfold Scope.has
  rw [find?_bind]
  by_cases same : name = other <;> simp [same]

theorem has_bindAll {params : List String} {name : String} :
    ∀ {scope : Scope} {args : List Value},
      (scope.bindAll params args).has name = true ↔ name ∈ params ∨ scope.has name = true := by
  induction params with
  | nil =>
    intro scope args
    simp [Scope.bindAll]
  | cons param params ih =>
    intro scope args
    cases args <;>
      rw [Scope.bindAll, ih, has_bind, List.mem_cons, eq_comm (a := param), or_assoc, or_left_comm]

theorem get_bindAll_of_notMem {params : List String} {name : String} (other : name ∉ params) :
    ∀ (scope : Scope) (args : List Value),
      (scope.bindAll params args).get name = scope.get name := by
  induction params with
  | nil =>
    intro scope args
    rfl
  | cons param params ih =>
    intro scope args
    have apart : param ≠ name := fun same => other (same ▸ List.mem_cons_self)
    have later : name ∉ params := fun member => other (List.mem_cons_of_mem _ member)
    cases args <;> rw [Scope.bindAll, ih later, get_bind, if_neg apart]

theorem get_eq_undefined {scope : Scope} {name : String} (unbound : ¬ scope.has name = true) :
    scope.get name = .undefined := by
  unfold Scope.has at unbound
  unfold Scope.get
  cases found : scope.find? name with
  | none => rfl
  | some value => simp [found] at unbound

end Scope

/-- The names that a called function sees: its parameters, its own name and those it was made
with. -/
theorem Closure.has_callScope {closure : Closure} {args : List Value} {name : String}
    (bound : (closure.callScope args).has name = true) :
    name ∈ closure.params ∨ (closure.name = name ∧ closure.name.isEmpty = false) ∨
      closure.snapshot.has name = true := by
  rcases Scope.has_bindAll.mp bound with param | captured
  · exact .inl param
  · right
    unfold Closure.captured at captured
    split at captured
    · exact .inr captured
    · rename_i named
      rcases Scope.has_bind.mp captured with own | made
      · exact .inl ⟨own, by simpa using named⟩
      · exact .inr made

/-- A function with a name sees itself under it, unless a parameter hides it. -/
theorem Closure.get_callScope_self (closure : Closure) (named : closure.name ≠ "")
    (visible : closure.name ∉ closure.params) (args : List Value) :
    (closure.callScope args).get closure.name = .function closure := by
  unfold Closure.callScope
  rw [Scope.get_bindAll_of_notMem visible]
  unfold Closure.captured
  rw [if_neg (by simpa using named), Scope.get_bind, if_pos rfl]

end Sapling
