import Sapling.Proofs.Bindings
import Sapling.Proofs.StaleReads
import Sapling.Proofs.StaticScope

/-!
# Reads of names that are said to be invisible

Where a function has lost a name that it does not see outside itself either, the warning of a later
read says that the name is not visible there.  The warning looks at the function only.  The body
expression that holds the read may bind the name once more: a definition that is evaluated before
the read brings it into sight, and a function defined under the name sees itself.

`Program.Offered` says that this happens somewhere on the way down to the read.  The names in sight
tell it exactly (`Program.mem_names_iff_offered`), and evaluation binds only names in sight, so an
invisible read has no value unless its own body expression offers the name
(`invisible_reads_unbound`).
-/

set_option autoImplicit false

namespace Sapling

/-! ## Names that come into sight -/

namespace Check

theorem mem_afterAll {nodes : List Expr} {name : String}
    (each : ∀ node ∈ nodes, ∀ names, name ∈ after node names ↔ name ∈ names ∨ name ∈ node.defines) :
    ∀ names, name ∈ afterAll nodes names ↔ name ∈ names ∨ name ∈ Expr.definesAll nodes := by
  induction nodes with
  | nil =>
    intro names
    simp [afterAll, Expr.definesAll]
  | cons node rest ih =>
    intro names
    obtain ⟨first, others⟩ := List.forall_mem_cons.mp each
    rw [afterAll, ih others, first, Expr.definesAll, List.mem_append, or_assoc]

theorem mem_inside_define (span : Span) {name other : String} (value : Expr)
    (names : List String) (index : Nat) :
    name ∈ inside (.define span other value) names index ↔
      name ∈ names ∨ value.isFunction = true ∧ name = other := by
  cases value with
  | function place params body => simp [inside, Expr.isFunction, or_comm]
  | _ => simp [inside, Expr.isFunction]

theorem mem_after (node : Expr) {name : String} :
    ∀ names, name ∈ after node names ↔ name ∈ names ∨ name ∈ node.defines := by
  induction node using Expr.children_induction with
  | node node ih =>
    intro names
    cases node with
    | hole => simp [Expr.defines]
    | literal span value => simp [Expr.defines]
    | read span other => simp [Expr.defines]
    | function span params body => simp [Expr.defines]
    | define span other value =>
      have inValue := ih value (by simp [Expr.children])
      rw [after_define, List.mem_cons, inValue, mem_inside_define, Expr.defines, List.mem_cons]
      tauto
    | binary span symbol left right =>
      have inLeft := ih left (by simp [Expr.children])
      have inRight := ih right (by simp [Expr.children])
      rw [after_binary, inRight, inLeft, Expr.defines, List.mem_append, or_assoc]
    | guarded span condition consequent =>
      have inCondition := ih condition (by simp [Expr.children])
      have inConsequent := ih consequent (by simp [Expr.children])
      rw [after_guarded, inConsequent, inCondition, Expr.defines, List.mem_append, or_assoc]
    | call span callee args =>
      have inCallee := ih callee (by simp [Expr.children])
      have inArgs := mem_afterAll fun arg (isArg : arg ∈ args) =>
        ih arg (by simp [Expr.children, isArg])
      rw [after_call, inArgs, inCallee, Expr.defines, List.mem_append, or_assoc]

end Check

/-- The node brings the name into sight of its child: a definition does so for the function that it
names, and other nodes by what they define in the children before. -/
def Expr.Offers (node : Expr) (index : Nat) (name : String) : Prop :=
  match node with
  | .define _ other value => value.isFunction = true ∧ name = other
  | .function .. => False
  | _ => name ∈ definesAll (node.children.take index)

theorem Expr.not_hides {node : Expr} (other : node.isFunction = false) (name : String) :
    ¬ node.Hides name := by
  rintro ⟨span, params, body, rfl, -⟩
  cases other

theorem Check.mem_inside {node : Expr} {name : String} (shown : ¬ node.Hides name)
    (names : List String) (index : Nat) :
    name ∈ inside node names index ↔ name ∈ names ∨ node.Offers index name := by
  have earlier : name ∈ afterAll (node.children.take index) names ↔
      name ∈ names ∨ name ∈ Expr.definesAll (node.children.take index) :=
    mem_afterAll (fun child _ names => mem_after child names) names
  cases node with
  | define span other value => exact mem_inside_define span value names index
  | function span params body =>
    have absent : name ∉ params := fun isParam => shown ⟨span, params, body, rfl, isParam⟩
    simp [inside, Expr.Offers, absent]
  | _ => exact earlier

theorem NodePlace.holds_child_iff {outer place : NodePlace} {index : Nat} :
    outer.Holds (place.child index) ↔ outer = place.child index ∨ outer.Holds place := by
  constructor
  · rintro ⟨same, suffix⟩
    rcases List.suffix_cons_iff.mp suffix with whole | further
    · left
      cases outer
      exact congrArg₂ mk same.symm whole
    · exact .inr ⟨same, further⟩
  · rintro (rfl | holds)
    · exact holds_self _
    · exact holds.trans (holds_child place index)

namespace Program
variable {program : Program} {outer inner : NodePlace} {name : String}

/-- On the way down from the outer place to the inner one a node offers the name to the child that
the way goes on to. -/
def Offered (program : Program) (outer inner : NodePlace) (name : String) : Prop :=
  ∃ branch node index, outer.Holds branch ∧ (branch.child index).Holds inner ∧
    program.node? branch = some node ∧ node.Offers index name

theorem not_offered_self (place : NodePlace) : ¬ program.Offered place place name := by
  rintro ⟨branch, -, index, above, below, -, -⟩
  exact NodePlace.child_not_holds branch index (below.trans above)

theorem offered_child_iff {place : NodePlace} {node : Expr} (holds : outer.Holds place)
    (found : program.node? place = some node) (index : Nat) :
    program.Offered outer (place.child index) name ↔
      program.Offered outer place name ∨ node.Offers index name := by
  constructor
  · rintro ⟨branch, above, turn, isAbove, below, isNode, offers⟩
    rcases NodePlace.holds_child_iff.mp below with same | further
    · have ends : turn = index ∧ branch.path = place.path :=
        List.cons.inj (congrArg NodePlace.path same)
      have here : branch = place := by
        cases branch
        cases place
        exact congrArg₂ NodePlace.mk (congrArg NodePlace.statement same) ends.2
      rw [here, found] at isNode
      cases isNode
      exact .inr (ends.1 ▸ offers)
    · exact .inl ⟨branch, above, turn, isAbove, further, isNode, offers⟩
  · rintro (⟨branch, above, turn, isAbove, below, isNode, offers⟩ | offers)
    · exact ⟨branch, above, turn, isAbove, below.trans (place.holds_child index), isNode, offers⟩
    · exact ⟨place, node, index, holds, NodePlace.holds_self _, found, offers⟩

/-- A name that is not in sight of the outer place, and that no parameter on the way down hides, is
in sight of the inner place exactly when it is offered on the way. -/
theorem mem_names_iff_offered {top : Site} (atOuter : program.site? outer = some top)
    (unseen : name ∉ top.names) {bottom : Site} (atInner : program.site? inner = some bottom)
    (holds : outer.Holds inner)
    (visible : ∀ between, outer.Holds between → between.Holds inner → ∀ node,
      program.node? between = some node → ¬ node.Hides name) :
    name ∈ bottom.names ↔ program.Offered outer inner name := by
  obtain ⟨statement, path⟩ := inner
  obtain ⟨rfl, front, rfl⟩ := holds
  -- by induction on the steps from the outer place, the last of which stands first
  induction front generalizing bottom with
  | nil =>
    have same : top = bottom := Option.some.inj (atOuter.symm.trans atInner)
    rw [← same]
    exact iff_of_false unseen (not_offered_self outer)
  | cons index front ih =>
    let place : NodePlace := ⟨outer.statement, front ++ outer.path⟩
    have above : outer.Holds place := ⟨rfl, List.suffix_append _ _⟩
    have down : place.Holds (place.child index) := place.holds_child index
    have isInner : program.node? (place.child index) = some bottom.expr := node?_of_site atInner
    obtain ⟨node, isNode⟩ := exists_node?_of_holds down isInner
    obtain ⟨site, atPlace, rfl⟩ := Option.map_eq_some_iff.mp isNode
    have names : bottom.names = Check.inside site.expr site.names index := by
      have isChild : site.child? index = some bottom := by
        rw [← site?_child atPlace index]
        exact atInner
      exact (Site.child?_eq_some isChild).2
    have further := ih atPlace fun between isBetween inPlace =>
      visible between isBetween (inPlace.trans down)
    have shown := visible place above down site.expr isNode
    rw [names, Check.mem_inside shown, further, ← offered_child_iff above isNode index]
    rfl

end Program

theorem Program.node?_named {program : Program}
    (named : ∀ statement ∈ program.statements, statement.Everywhere Expr.Named)
    (place : NodePlace) (node : Expr) (found : program.node? place = some node) : node.Named := by
  obtain ⟨site, isSite, rfl⟩ := Option.map_eq_some_iff.mp found
  have below := site?_hereditary (Expr.everywhere_hereditary _) named isSite
  exact (Expr.everywhere_iff.mp below).1

theorem Program.ReadsBelow.name_eq {program : Program} {outer inner : NodePlace}
    {name other : String} {span : Span} (below : program.ReadsBelow outer inner other)
    (isRead : program.node? inner = some (.read span name)) : other = name := by
  obtain ⟨start, isOther⟩ := below.read
  rw [isRead] at isOther
  cases isOther
  rfl

/-! ## Invisible reads -/

namespace BodyRead

/-- A stale read of a name that is not in sight where the function stands. -/
def IsInvisible (program : Program) (stale : BodyRead) : Prop :=
  ∃ function names name, program.site? stale.function = some ⟨function, names⟩ ∧
    function.Loses stale.index name ∧ name ∉ names ∧
      program.ReadsBelow (stale.function.child stale.index) stale.read name

/-- The body expression that holds the read offers it the name. -/
def IsOffered (program : Program) (stale : BodyRead) (name : String) : Prop :=
  program.Offered (stale.function.child stale.index) stale.read name

variable {program : Program} {stale : BodyRead}

theorem IsInvisible.mem_names_iff {site : Site} {span : Span} {name : String}
    (invisible : stale.IsInvisible program) (found : program.site? stale.read = some site)
    (isRead : site.expr = .read span name) :
    name ∈ site.names ↔ stale.IsOffered program name := by
  obtain ⟨function, names, other, atFunction, loses, unseen, below⟩ := invisible
  obtain ⟨place, params, body, rfl, notParam, earlier⟩ := loses
  have isNode : program.node? stale.read = some (.read span name) :=
    isRead ▸ Program.node?_of_site found
  have same : other = name := below.name_eq isNode
  subst same
  obtain ⟨node, isChild⟩ := Program.exists_node?_of_holds below.inside isNode
  obtain ⟨top, atTop, -⟩ := Option.map_eq_some_iff.mp isChild
  have inBody : (⟨.function place params body, names⟩ : Site).child? stale.index = some top := by
    rw [← Program.site?_child atFunction]
    exact atTop
  refine Program.mem_names_iff_offered atTop ?_ found below.inside ?_
  · rw [(Site.child?_eq_some inBody).2]
    simp [Check.inside, notParam, unseen]
  · rintro between isAbove isBelow node isFunction ⟨start, others, inner, rfl, isParam⟩
    exact below.visible between isAbove isBelow start others inner isFunction isParam

theorem invisible_message_iff (span : Span) (name : String) (captured : Bool) :
    (Check.staleRead span name captured).message =
        "'" ++ name ++ "' is bound by an earlier body expression and is not visible here" ↔
      captured = false := by
  cases captured with
  | false => exact iff_of_true rfl rfl
  | true =>
    refine iff_of_false (fun same => ?_) (by decide)
    have same : "'" ++ name ++ "' reads the captured value, not the earlier body binding" =
        "'" ++ name ++ "' is bound by an earlier body expression and is not visible here" := same
    have ends := (String.append_right_inj _).mp same
    revert ends
    decide

theorem WarnedBy.invisible_iff {warning : Diagnostic} (isStale : stale.IsStale program)
    (warned : stale.WarnedBy program warning) {span : Span} {name : String}
    (isRead : program.node? stale.read = some (.read span name)) :
    warning.message =
        "'" ++ name ++ "' is bound by an earlier body expression and is not visible here" ↔
      stale.IsInvisible program := by
  obtain ⟨site, atFunction, start, other, isOther, rfl⟩ := warned
  have same : Expr.read start other = .read span name :=
    Option.some.inj (isOther.symm.trans isRead)
  cases same
  rw [invisible_message_iff, ← Bool.not_eq_true, List.contains_iff_mem]
  constructor
  · intro unseen
    obtain ⟨function, lost, isFunction, loses, below⟩ := isStale
    have isLost : lost = name := below.name_eq isRead
    subst isLost
    have isSite : site.expr = function :=
      Option.some.inj ((Program.node?_of_site atFunction).symm.trans isFunction)
    exact ⟨site.expr, site.names, lost, atFunction, isSite ▸ loses, unseen, below⟩
  · rintro ⟨function, names, lost, isFunction, -, unseen, below⟩
    have isLost : lost = name := below.name_eq isRead
    have sameSite : site = ⟨function, names⟩ :=
      Option.some.inj (atFunction.symm.trans isFunction)
    rw [sameSite, ← isLost]
    exact unseen

end BodyRead

/-- Each stale read has one warning, which says that the name is not visible exactly when the read
is invisible.  Such a read sees the name where the check comes to it exactly when its body
expression offers it.  Whenever the read is evaluated, in an execution from the empty scope under
any limit, the name is bound only then, and otherwise the read has no value. -/
theorem invisible_reads_unbound (settings : Settings) (program : Program) (nextId : Nat)
    (named : ∀ statement ∈ program.statements, statement.Everywhere Expr.Named) :
    (∃ reads : List BodyRead, reads.Nodup ∧ (∀ read, read ∈ reads ↔ read.IsStale program) ∧
      List.Forall₂
        (fun stale warning => ∃ span name, program.node? stale.read = some (.read span name) ∧
          warning.span = some span ∧
          (warning.message =
              "'" ++ name ++ "' is bound by an earlier body expression and is not visible here" ↔
            stale.IsInvisible program))
        reads ((checkProgram (some program)).filter (·.code = "E_BODY_SCOPE"))) ∧
    (∀ (stale : BodyRead) (span : Span) (name : String) (names : List String),
      stale.IsInvisible program → program.site? stale.read = some ⟨.read span name, names⟩ →
        (name ∈ names ↔ stale.IsOffered program name)) ∧
    (∀ (index : Nat) (m : Machine) (trail : Trail) (span : Span) (name : String) (stale : BodyRead),
      program.Reaches settings Scope.empty nextId index m trail →
      m.control = .eval (.read span name) → stale.read = trail.here →
      stale.IsInvisible program →
        (m.scope.has name = true → stale.IsOffered program name) ∧
        (¬ stale.IsOffered program name → m.scope.has name = false ∧
          m.step settings =
            .inl (.giving (.ok .undefined) m.scope m.state m.remaining m.frames))) ∧
    (program.statements ≠ [] →
      ∃ index m trail evaluated, program.Reaches settings Scope.empty nextId index m trail ∧
        m.step settings = .inr evaluated ∧
        (program.execute settings Scope.empty nextId).EndsAt program 0 index evaluated) := by
  have everywhere := Program.node?_named named
  refine ⟨?_, ?_, ?_, Program.execute_reaches settings program _ nextId⟩
  · obtain ⟨reads, nodup, members, told⟩ := Check.checkProgram_listed everywhere
    refine ⟨reads, nodup, members, ?_⟩
    have both := (List.forall₂_and_left _ _).mpr
      ⟨fun stale isIn => (members stale).mp isIn, told⟩
    refine both.imp ?_
    rintro stale warning ⟨isStale, warned⟩
    obtain ⟨site, atFunction, span, name, isRead, rfl⟩ := warned
    refine ⟨span, name, isRead, rfl, ?_⟩
    exact BodyRead.WarnedBy.invisible_iff isStale ⟨site, atFunction, span, name, isRead, rfl⟩ isRead
  · intro stale span name names invisible found
    exact invisible.mem_names_iff found rfl
  · intro index m trail span name stale reached reading atRead invisible
    have tracked := reached.tracked.control
    rcases m with ⟨control, scope, state, remaining, frames⟩
    obtain rfl : control = .eval (.read span name) := reading
    obtain ⟨names, site, sees, -⟩ := tracked
    rw [← atRead] at site
    have nonempty : name ≠ "" := everywhere _ _ (Program.node?_of_site site)
    have onlyOffered : scope.has name = true → stale.IsOffered program name := fun bound =>
      (invisible.mem_names_iff site rfl).mp (sees name nonempty bound)
    refine ⟨onlyOffered, fun notOffered => ?_⟩
    have unbound : ¬ scope.has name = true := fun bound => notOffered (onlyOffered bound)
    refine ⟨Bool.eq_false_iff.mpr unbound, ?_⟩
    change Sum.inl (Machine.giving (.ok (scope.get name)) scope state remaining frames) = _
    rw [Scope.get_eq_undefined unbound]

namespace Program

def losing (next : Expr) : Program :=
  ⟨Span.zero, [.call Span.zero
    (.function Span.zero [] [.define Span.zero "x" (.literal Span.zero 1), next]) []]⟩

theorem losing_invisible {next : Expr} {read : NodePlace}
    (below : (losing next).ReadsBelow ⟨0, [1, 0]⟩ read "x") :
    BodyRead.IsInvisible (losing next) ⟨⟨0, [0]⟩, 1, read⟩ := by
  refine ⟨_, [], "x", rfl, ?_, List.not_mem_nil, below⟩
  exact ⟨Span.zero, [], _, rfl, List.not_mem_nil, 0, Nat.zero_lt_one, Span.zero, _, rfl⟩

def readsFirst : Program :=
  losing (.binary Span.zero "+" (.read Span.zero "x")
    (.define Span.zero "x" (.literal Span.zero 2)))

def bindsFirst : Program :=
  losing (.guarded Span.zero
    (.binary Span.zero ">" (.define Span.zero "x" (.literal Span.zero 2))
      (.literal Span.zero 1))
    (.read Span.zero "x"))

end Program

theorem invisible_reads_unbound_readsFirst :
    (∀ statement ∈ Program.readsFirst.statements, statement.Everywhere Expr.Named) ∧
      BodyRead.IsInvisible Program.readsFirst ⟨⟨0, [0]⟩, 1, ⟨0, [0, 1, 0]⟩⟩ ∧
      ∃ m trail, Program.readsFirst.Reaches ⟨1, false, ""⟩ Scope.empty 0 0 m trail ∧
        m.control = .eval (.read Span.zero "x") ∧ trail.here = ⟨0, [0, 1, 0]⟩ ∧
        m.scope.has "x" = false ∧
        m.step ⟨1, false, ""⟩ =
          .inl (.giving (.ok .undefined) m.scope m.state m.remaining m.frames) := by
  have named : ∀ statement ∈ Program.readsFirst.statements, statement.Everywhere Expr.Named := by
    simp [Program.readsFirst, Program.losing, Expr.Everywhere, Expr.everywhereAll, Expr.Named]
  have below : Program.readsFirst.ReadsBelow ⟨0, [1, 0]⟩ ⟨0, [0, 1, 0]⟩ "x" := by
    refine (Program.readsBelow_iff rfl).mpr (.inr ⟨Expr.not_hides rfl _, 0, by decide, ?_⟩)
    exact (Program.readsBelow_iff rfl).mpr (.inl ⟨rfl, Span.zero, rfl⟩)
  have invisible : BodyRead.IsInvisible Program.readsFirst ⟨⟨0, [0]⟩, 1, ⟨0, [0, 1, 0]⟩⟩ :=
    Program.losing_invisible below
  have start : Program.readsFirst.Reaches ⟨1, false, ""⟩ Scope.empty 0 0 _ _ := .start rfl
  have inBody := (((start.step rfl).step rfl).step rfl).step rfl
  have reading := (((inBody.step rfl).step rfl).step rfl).step rfl
  obtain ⟨-, seen, evaluated, -⟩ :=
    invisible_reads_unbound ⟨1, false, ""⟩ Program.readsFirst 0 named
  have notOffered := mt (seen _ Span.zero "x" [] invisible rfl).mpr List.not_mem_nil
  obtain ⟨-, silent⟩ := evaluated 0 _ _ Span.zero "x" _ reading rfl rfl invisible
  exact ⟨named, invisible, _, _, reading, rfl, rfl, silent notOffered⟩

/-- A read whose name is said to be invisible finds the binding that its own body expression has
made. -/
theorem invisible_read_finds_binding :
    (∀ statement ∈ Program.bindsFirst.statements, statement.Everywhere Expr.Named) ∧
      BodyRead.IsInvisible Program.bindsFirst ⟨⟨0, [0]⟩, 1, ⟨0, [1, 1, 0]⟩⟩ ∧
      checkProgram (some Program.bindsFirst) = [Check.staleRead Span.zero "x" false] ∧
      ∃ m trail, Program.bindsFirst.Reaches ⟨1, false, ""⟩ Scope.empty 0 0 m trail ∧
        m.control = .eval (.read Span.zero "x") ∧ trail.here = ⟨0, [1, 1, 0]⟩ ∧
        m.scope.get "x" = .number 2 := by
  have named : ∀ statement ∈ Program.bindsFirst.statements, statement.Everywhere Expr.Named := by
    simp [Program.bindsFirst, Program.losing, Expr.Everywhere, Expr.everywhereAll, Expr.Named]
  have below : Program.bindsFirst.ReadsBelow ⟨0, [1, 0]⟩ ⟨0, [1, 1, 0]⟩ "x" := by
    refine (Program.readsBelow_iff rfl).mpr (.inr ⟨Expr.not_hides rfl _, 1, by decide, ?_⟩)
    exact (Program.readsBelow_iff rfl).mpr (.inl ⟨rfl, Span.zero, rfl⟩)
  have start : Program.bindsFirst.Reaches ⟨1, false, ""⟩ Scope.empty 0 0 _ _ := .start rfl
  have inBody := (((start.step rfl).step rfl).step rfl).step rfl
  have inGuard := (((inBody.step rfl).step rfl).step rfl).step rfl
  have bound := (((inGuard.step rfl).step rfl).step rfl).step rfl
  have reading := (((bound.step rfl).step rfl).step rfl).step rfl
  exact ⟨named, Program.losing_invisible below, rfl, _, _, reading, rfl, rfl, rfl⟩

end Sapling
