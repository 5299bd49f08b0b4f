import Sapling.Proofs.Bindings
import Sapling.Proofs.Coverage
import Sapling.Proofs.Trails
import Sapling.Proofs.Walks

/-!
# Names that are collected

The visitor that collects the names of definitions always goes inside, so it sees every node of a
program: the names that a check has collected are those of all definitions in the program, in bodies
of functions, too.  An execution binds no others by a definition (`Program.Reaches.defined`), and
leaves no others bound (`Program.execute_collected`).
-/

set_option autoImplicit false

namespace Sapling

/-! ## The visitor -/

theorem collectNames_enters (expr : Expr) (names : List String) :
    (collectNames expr names).2 = true := by
  cases expr <;> rfl

theorem mem_collectNames {expr : Expr} {names : List String} {name : String} :
    name ∈ (collectNames expr names).1 ↔
      name ∈ names ∨ ∃ span value, expr = .define span name value := by
  cases expr with
  | define span other value =>
    simp [collectNames, or_comm, eq_comm]
  | _ => simp [collectNames]

theorem Visitor.Answers.collected {names last : List String} {calls : List (Expr × Bool)}
    (answers : collectNames.Answers names calls last) :
    (∀ call ∈ calls, call.2 = true) ∧
      ∀ name, name ∈ last ↔
        name ∈ names ∨ ∃ span value, (Expr.define span name value, true) ∈ calls := by
  induction answers with
  | nil names => simp
  | @cons names next last node enters calls answer _ ih =>
    obtain rfl : enters = true := by
      rw [← collectNames_enters node names, answer]
    obtain ⟨allEnter, members⟩ := ih
    refine ⟨List.forall_mem_cons.mpr ⟨rfl, allEnter⟩, fun name => ?_⟩
    have first := @mem_collectNames node names name
    rw [answer] at first
    rw [members, first, or_assoc]
    refine or_congr_right ?_
    simp [eq_comm, exists_or]

/-! ## Definitions in a program -/

theorem Expr.at?_hereditary {p : Expr → Prop} (hereditary : Hereditary p) {path : List Nat} :
    ∀ {expr node : Expr}, p expr → expr.at? path = some node → p node := by
  induction path with
  | nil =>
    intro expr node holds found
    cases found
    exact holds
  | cons index path ih =>
    intro expr node holds found
    obtain ⟨child, isChild, below⟩ := Option.bind_eq_some_iff.mp found
    exact ih (hereditary expr holds child (List.mem_of_getElem? isChild)) below

namespace Program

variable {program : Program}

theorem contains_iff {node : Expr} :
    program.Contains node ↔ ∃ place, Expr.from? 0 program.statements place = some node := by
  constructor
  · rintro ⟨place, names, found⟩
    refine site?_hereditary
      (p := fun node => ∃ place, Expr.from? 0 program.statements place = some node) ?_ ?_ found
    · rintro expr ⟨place, found⟩ child member
      obtain ⟨index, isChild⟩ := List.mem_iff_getElem?.mp member
      exact ⟨place ++ [index], by simp [Expr.from?_append found, Expr.at?, isChild]⟩
    · intro statement member
      obtain ⟨index, isStatement⟩ := List.mem_iff_getElem?.mp member
      exact ⟨[index], by simp [Expr.from?, Expr.at?, isStatement]⟩
  · rintro ⟨place, found⟩
    cases place with
    | nil => cases found
    | cons index path =>
      obtain ⟨statement, isStatement, below⟩ := Option.bind_eq_some_iff.mp found
      exact Expr.at?_hereditary program.contains_hereditary
        (contains_statement (List.mem_of_getElem? isStatement)) below

theorem mem_definedNames {name : String} :
    name ∈ program.definedNames ↔ ∃ span value, program.Contains (.define span name value) := by
  obtain ⟨log, calls, lists⟩ := Expr.exists_logAll collectNames
    (fun expr _ => Expr.exists_log collectNames expr) 0 []
  obtain ⟨entered, members⟩ := calls.answered.collected
  have allEnter : ∀ visit ∈ log, visit.enters = true :=
    fun visit member => entered _ (List.mem_map_of_mem member)
  rw [definedNames, members]
  simp only [List.not_mem_nil, false_or, List.mem_map, contains_iff]
  constructor
  · rintro ⟨span, value, visit, member, same⟩
    refine ⟨span, value, visit.place, ?_⟩
    rw [lists.found member]
    exact congrArg (some ·.1) same
  · rintro ⟨span, value, place, found⟩
    exact ⟨span, value, _, lists.visited_of_entered allEnter place _ found rfl, rfl⟩

end Program

/-! ## Definitions in a run -/

namespace Machine

/-- The names that the frames are still to bind. -/
def pendingNames : List Frame → List String
  | [] => []
  | .define name _ :: frames => name :: pendingNames frames
  | _ :: frames => pendingNames frames

/-- The next step binds the name by a definition. -/
def Defines (settings : Settings) (m : Machine) (name : String) : Prop :=
  ∃ value isFunction frames, m.frames = .define name isFunction :: frames ∧
    m.step settings =
      .inl (giving (.ok value) (m.scope.bind name value) m.state m.remaining frames)

section Step
variable (settings : Settings) (scope : Scope) (state : EvalState) (remaining : Nat)
  (frames : List Frame)

theorem invoke_pendingNames (closure : Closure) (args : List Value) (span : Option Span) :
    pendingNames (invoke settings closure args span scope state remaining frames).frames =
      pendingNames frames := by
  unfold invoke
  split
  · rfl
  · split <;> rfl

theorem arguments_pendingNames (span : Option Span) (expr : Expr) (target : Value)
    (done : List Value) (rest : List Expr) :
    pendingNames
        (arguments settings span expr target done rest scope state remaining frames).frames =
      pendingNames frames := by
  unfold arguments
  split
  · rfl
  · split
    · exact invoke_pendingNames ..
    · rfl

theorem accept_pendingNames (value : Value) (frame : Frame) :
    pendingNames (accept settings value scope state remaining frame frames).frames ⊆
      pendingNames (frame :: frames) := by
  cases frame with
  | define name isFunction => exact List.subset_cons_self _ _
  | right span symbol operand => exact List.Subset.refl _
  | operate span symbol left => exact List.Subset.refl _
  | branch consequent =>
    simp only [accept]
    split <;> exact List.Subset.refl _
  | callee span expr args =>
    simp only [accept]
    split
    · exact List.Subset.refl _
    · rw [arguments_pendingNames]
      exact List.Subset.refl _
  | argument span expr target done rest =>
    simp only [accept]
    rw [arguments_pendingNames]
    exact List.Subset.refl _
  | body span closure args rest caller => cases rest <;> exact List.Subset.refl _

theorem reject_pendingNames (error : EvalError) (frame : Frame) :
    pendingNames (reject settings error scope state remaining frame frames).frames ⊆
      pendingNames (frame :: frames) := by
  cases frame with
  | define name isFunction => exact List.subset_cons_self _ _
  | _ => exact List.Subset.refl _

end Step

/-- A name comes to be bound only by starting to evaluate its definition. -/
theorem step_pendingNames {settings : Settings} {m next : Machine} {name : String}
    (stepped : m.step settings = .inl next) (pending : name ∈ pendingNames next.frames) :
    name ∈ pendingNames m.frames ∨ ∃ span value, m.control = .eval (.define span name value) := by
  rcases m with ⟨control, scope, state, remaining, frames⟩
  cases control with
  | eval expr =>
    cases Sum.inl.inj stepped
    cases expr with
    | define span other value =>
      rcases List.mem_cons.mp pending with rfl | before
      · exact .inr ⟨span, value, rfl⟩
      · exact .inl before
    | _ => exact .inl pending
  | give outcome =>
    cases frames with
    | nil => simp [step] at stepped
    | cons frame frames =>
      cases outcome with
      | ok value =>
        cases Sum.inl.inj stepped
        exact .inl (accept_pendingNames settings scope state remaining frames value frame pending)
      | error error =>
        cases Sum.inl.inj stepped
        exact .inl (reject_pendingNames settings scope state remaining frames error frame pending)

end Machine

namespace Program

variable {program : Program} {settings : Settings} {nextId index : Nat} {m : Machine}
  {trail : Trail}

theorem opening_from {scope : Scope} {state : EvalState} {statement : Expr}
    (found : program.statements[index]? = some statement) (bound : scope.From program.Contains) :
    Machine.From program.Contains (.opening settings index statement scope state) :=
  Machine.from_evaluating (contains_statement (List.mem_of_getElem? found)) bound
    fun _ member => absurd member List.not_mem_nil

theorem Reaches.from (reached : program.Reaches settings Scope.empty nextId index m trail) :
    Machine.From program.Contains m := by
  induction reached with
  | start found => exact opening_from found Scope.empty_each
  | step _ stepped ih => exact Machine.from_step program.contains_hereditary ih stepped
  | statement _ ended _ found ih =>
    rw [Machine.step_eq_inr ended] at ih
    exact opening_from found ih.scope

theorem Reaches.pendingNames
    (reached : program.Reaches settings Scope.empty nextId index m trail) :
    Machine.pendingNames m.frames ⊆ program.definedNames := by
  induction reached with
  | start found => exact List.nil_subset _
  | statement _ _ _ found _ => exact List.nil_subset _
  | step before stepped ih =>
    intro name pending
    rcases Machine.step_pendingNames stepped pending with earlier | ⟨span, value, started⟩
    · exact ih earlier
    · have stands := before.from.control
      rw [started] at stands
      exact mem_definedNames.mpr ⟨span, value, stands⟩

theorem Reaches.defined (reached : program.Reaches settings Scope.empty nextId index m trail)
    {name : String} (defines : m.Defines settings name) : name ∈ program.definedNames := by
  obtain ⟨value, isFunction, frames, top, _⟩ := defines
  refine reached.pendingNames ?_
  rw [top]
  exact List.mem_cons_self

theorem definesAll_subset {names : List String} {exprs : List Expr}
    (each : ∀ expr ∈ exprs, expr.defines ⊆ names) : Expr.definesAll exprs ⊆ names := by
  induction exprs with
  | nil => exact List.nil_subset _
  | cons expr rest ih =>
    obtain ⟨first, others⟩ := List.forall_mem_cons.mp each
    rw [Expr.definesAll]
    exact List.append_subset.mpr ⟨first, ih others⟩

theorem defines_subset_definedNames {expr : Expr} (stands : program.Contains expr) :
    expr.defines ⊆ program.definedNames := by
  induction expr using Expr.children_induction with
  | node expr ih =>
    have below (child : Expr) (member : child ∈ expr.children) :
        child.defines ⊆ program.definedNames :=
      ih child member (program.contains_hereditary expr stands child member)
    cases expr with
    | hole => exact List.nil_subset _
    | literal span value => exact List.nil_subset _
    | read span name => exact List.nil_subset _
    | function span params body => exact List.nil_subset _
    | define span name value =>
      rw [Expr.defines]
      exact List.cons_subset.mpr
        ⟨mem_definedNames.mpr ⟨span, value, stands⟩, below value (by simp [Expr.children])⟩
    | binary span symbol left right =>
      rw [Expr.defines]
      exact List.append_subset.mpr
        ⟨below left (by simp [Expr.children]), below right (by simp [Expr.children])⟩
    | guarded span condition consequent =>
      rw [Expr.defines]
      exact List.append_subset.mpr
        ⟨below condition (by simp [Expr.children]), below consequent (by simp [Expr.children])⟩
    | call span callee args =>
      rw [Expr.defines]
      refine List.append_subset.mpr ⟨below callee (by simp [Expr.children]), ?_⟩
      exact definesAll_subset fun arg member => below arg (by simp [Expr.children, member])

theorem execute_collected (settings : Settings) (program : Program) (nextId : Nat) {name : String}
    (bound : (program.execute settings Scope.empty nextId).scope.has name = true) :
    name ∈ program.definedNames := by
  refine @Program.execute_keeps_scope
    (fun scope => ∀ name, Scope.has scope name = true → name ∈ program.definedNames)
    settings program ?_ Scope.empty ?_ nextId name bound
  · intro name isIn scope value kept other bound
    rcases Scope.has_bind.mp bound with same | before
    · refine same ▸ definesAll_subset ?_ isIn
      exact fun statement member => defines_subset_definedNames (contains_statement member)
    · exact kept other before
  · intro name bound
    cases bound

end Program

/-! ## Walks and runs -/

/-- A walk calls the visitor on exactly the nodes that are there and have no ancestor that it stayed
out of, whatever its answers depend on: on each once, on a node before its children, and on children
in order.  The calls are those that the visitor notes when it takes notes, and its state is that
after them.  A visitor that always goes inside collects the names of all definitions of a program; a
run from the empty scope binds no other name by a definition, at the top or in any call, and leaves
none bound. -/
theorem unpruned_nodes_visited :
    (∀ (σ : Type) (visit : Visitor σ) (expr : Expr) (state : σ), ∃ log : List Visit,
      expr.walk visit.noting (state, []) = (expr.walk visit state, log.map Visit.call) ∧
      visit.Answers state (log.map Visit.call) (expr.walk visit state) ∧
      (∀ place node, (∃ enters, ⟨place, node, enters⟩ ∈ log) ↔
        expr.at? place = some node ∧ node.isHole = false ∧
          ∀ above outer, above <+: place → above ≠ place → expr.at? above = some outer →
            ⟨above, outer, true⟩ ∈ log) ∧
      (log.map Visit.place).Nodup ∧
      log.Pairwise fun earlier later => Precedes earlier.place later.place) ∧
    ∀ program : Program,
      (∀ name, name ∈ program.definedNames ↔
        ∃ span value, program.Contains (.define span name value)) ∧
      ∀ (settings : Settings) (nextId : Nat) (name : String),
        (∀ index m trail, program.Reaches settings Scope.empty nextId index m trail →
          m.Defines settings name → name ∈ program.definedNames) ∧
        ((program.execute settings Scope.empty nextId).scope.has name = true →
          name ∈ program.definedNames) := by
  constructor
  · intro σ visit expr state
    obtain ⟨log, calls, lists⟩ := Expr.exists_log visit expr state
    exact ⟨log, by simpa using calls.noted [], calls.answered, lists.visited, lists.once,
      lists.ordered⟩
  · intro program
    refine ⟨fun name => Program.mem_definedNames, fun settings nextId name => ⟨?_, ?_⟩⟩
    · exact fun index m trail reached defines => reached.defined defines
    · exact program.execute_collected settings nextId

def Program.bindsInCall : Program :=
  ⟨Span.zero, [.define Span.zero "f" (.function Span.zero []
      [.define Span.zero "y" (.literal Span.zero 1)]),
    .call Span.zero (.read Span.zero "f") []]⟩

theorem unpruned_nodes_visited_bindsInCall :
    (∃ m trail, Program.bindsInCall.Reaches ⟨1, false, ""⟩ Scope.empty 0 1 m trail ∧
      m.Defines ⟨1, false, ""⟩ "y" ∧ "y" ∈ Program.bindsInCall.definedNames) ∧
    (Program.bindsInCall.execute ⟨1, false, ""⟩ Scope.empty 0).scope.has "f" = true ∧
    "f" ∈ Program.bindsInCall.definedNames := by
  have collected := (unpruned_nodes_visited.2 Program.bindsInCall).2 ⟨1, false, ""⟩ 0
  have start : Program.bindsInCall.Reaches ⟨1, false, ""⟩ Scope.empty 0 0 _ _ := .start rfl
  have defined := ((start.step rfl).step rfl).step rfl
  have calling := ((defined.statement rfl rfl rfl).step rfl).step rfl
  have binding := ((calling.step rfl).step rfl).step rfl
  obtain ⟨m, trail, reached, defines⟩ :
      ∃ m trail, Program.bindsInCall.Reaches ⟨1, false, ""⟩ Scope.empty 0 1 m trail ∧
        m.Defines ⟨1, false, ""⟩ "y" :=
    ⟨_, _, binding, .number 1, false, _, rfl, rfl⟩
  have bound :
      (Program.bindsInCall.execute ⟨1, false, ""⟩ Scope.empty 0).scope.has "f" = true := by
    simp only [Program.execute, Program.bindsInCall, executeFrom, Expr.evaluate_eq_eval]
    rfl
  exact ⟨⟨m, trail, reached, defines, (collected "y").1 1 m trail reached defines⟩, bound,
    (collected "f").2 bound⟩

end Sapling
