import Sapling.Proofs.Placement

/-!
# Names bound at run time are names in sight

Two disciplines of scope meet here: that of the check, which goes through a program once, and that
of evaluation, where functions keep the bindings they were made in and are called at any time.  At
every node that an execution from the empty scope evaluates, each name bound is one of the names
that are in sight there when the node is checked.  Every step keeps this (`tracked_step`), hence
every execution does (`Program.Reaches.tracked`).
-/

set_option autoImplicit false

namespace Sapling

/-! ## What a step keeps -/

/-- An expression is about to be evaluated: it stands where the trail is, and the scope binds only
names in sight there. -/
def Evaluates (program : Program) (goal : List String) (trail : Trail) (expr : Expr) (scope : Scope)
    (frames : List Frame) : Prop :=
  ∃ names, program.site? trail.here = some ⟨expr, names⟩ ∧ Sees names scope ∧
    scope.Placed program trail.made ∧
    Takes program trail.made goal (fun name => expr.isFunction = true ∧ name ∈ names)
      (Check.after expr names) frames trail.pending

def Gives (program : Program) (goal : List String) (trail : Trail) (value : Value) (scope : Scope)
    (frames : List Frame) : Prop :=
  ∃ names, Sees names scope ∧ scope.Placed program trail.made ∧ value.Placed program trail.made ∧
    Takes program trail.made goal
      (fun name => (value.named name).Placed program trail.made) names frames trail.pending

/-- The machine is where the trail says, and binds only names in sight. -/
structure Tracked (program : Program) (goal : List String) (m : Machine) (trail : Trail) :
    Prop where
  fresh : Unmade trail.made m.state.nextId
  control : match m.control with
    | .eval expr => Evaluates program goal trail expr m.scope m.frames
    | .give (.ok value) => Gives program goal trail value m.scope m.frames
    | .give (.error _) => True

section Steps
variable {program : Program} {goal : List String} {trail : Trail} {scope : Scope}
  {state : EvalState} {remaining : Nat} {frames : List Frame}

theorem function_tracked {span : Span} {params : List String} {body : List Expr}
    (fresh : Unmade trail.made state.nextId)
    (evaluates : Evaluates program goal trail (.function span params body) scope frames) :
    Tracked program goal
      (Machine.unfoldExpr (.function span params body) scope state remaining frames)
      (trail.unfold (.function span params body) state.nextId) := by
  obtain ⟨names, site, sees, placed, takes⟩ := evaluates
  -- the identity taken was free, so the functions made before keep their nodes
  have extended : Extends trail.made (trail.record state.nextId) := by
    intro id place recorded
    rw [trail.record_of_ne, recorded]
    rintro rfl
    rw [fresh _ (Nat.le_refl _)] at recorded
    cases recorded
  have inside : scope.Placed program (trail.record state.nextId) :=
    placed.mono (Closure.Placed.mono extended)
  have madeHere (name : String) (possible : name ≠ "" → name ∈ names) :
      (Value.function (.mk state.nextId name params body scope)).Placed program
        (trail.record state.nextId) :=
    .function ⟨trail.here, trail.record_self _, span, names, site, sees, possible⟩ inside
  refine ⟨?_, names, sees, inside, madeHere "" (absurd rfl), ?_⟩
  · intro id above
    have above : state.nextId + 1 ≤ id := above
    exact (trail.record_of_ne (by omega)).trans (fresh id (by omega))
  · rw [Check.after_function] at takes
    exact takes.extend extended fun name able => madeHere name fun _ => able.2

theorem unfoldExpr_tracked {expr : Expr} (fresh : Unmade trail.made state.nextId)
    (evaluates : Evaluates program goal trail expr scope frames) :
    Tracked program goal (Machine.unfoldExpr expr scope state remaining frames)
      (trail.unfold expr state.nextId) := by
  cases expr with
  | function span params body => exact function_tracked fresh evaluates
  | hole => exact ⟨fresh, trivial⟩
  | literal span value =>
    obtain ⟨names, site, sees, placed, takes⟩ := evaluates
    have resumes := takes.resumes (by simp [Expr.isFunction])
    rw [Check.after_literal] at resumes
    exact ⟨fresh, names, sees, placed, .number value, .plain resumes⟩
  | read span name =>
    obtain ⟨names, site, sees, placed, takes⟩ := evaluates
    have resumes := takes.resumes (by simp [Expr.isFunction])
    rw [Check.after_read] at resumes
    exact ⟨fresh, names, sees, placed, placed.get name, .plain resumes⟩
  | define span name value =>
    obtain ⟨names, site, sees, placed, takes⟩ := evaluates
    have resumes := takes.resumes (by simp [Expr.isFunction])
    rw [Check.after_define] at resumes
    refine ⟨fresh, Check.inside (.define span name value) names 0, Program.site?_child site 0,
      sees.mono (Check.subset_inside_define span name value names), placed, ?_⟩
    -- only a function node sees the name that is being defined, and only it takes the name
    cases value with
    | function place params body => exact .naming ⟨rfl, List.mem_cons_self⟩ resumes
    | _ => exact .plain (.define resumes)
  | binary span symbol left right =>
    obtain ⟨names, site, sees, placed, takes⟩ := evaluates
    have resumes := takes.resumes (by simp [Expr.isFunction])
    rw [Check.after_binary] at resumes
    exact ⟨fresh, names, Program.site?_child site 0, sees, placed,
      .plain (.right (Program.site?_child site 1) (List.Subset.refl _) resumes)⟩
  | guarded span condition consequent =>
    obtain ⟨names, site, sees, placed, takes⟩ := evaluates
    have resumes := takes.resumes (by simp [Expr.isFunction])
    rw [Check.after_guarded] at resumes
    exact ⟨fresh, names, Program.site?_child site 0, sees, placed,
      .plain (.branch (Program.site?_child site 1) (List.Subset.refl _) resumes)⟩
  | call span callee args =>
    obtain ⟨names, site, sees, placed, takes⟩ := evaluates
    have resumes := takes.resumes (by simp [Expr.isFunction])
    exact ⟨fresh, names, Program.site?_child site 0, sees, placed,
      .plain (.callee (ahead_of_call site) resumes)⟩

theorem body_tracked {node : NodePlace} {places : List NodePlace} {outer : List String}
    {closure : Closure} {args : List Value} {expr : Expr} {rest : List Expr} {caller : Scope}
    (span : Option Span) (fresh : Unmade trail.made state.nextId)
    (here : trail.here = node.child (closure.body.length - (rest.length + 1)))
    (pending : trail.pending = node :: places) (recorded : trail.made closure.id = some node)
    (closurePlaced : (Value.function closure).Placed program trail.made)
    (argsPlaced : ∀ arg ∈ args, arg.Placed program trail.made)
    (left : expr :: rest <:+ closure.body) (sees : Sees outer caller)
    (callerPlaced : caller.Placed program trail.made)
    (below : Resumes program trail.made goal outer frames places) :
    Tracked program goal
      (Machine.evaluating expr (closure.callScope args) state remaining
        (.body span closure args rest caller :: frames)) trail := by
  have found : closure.body[closure.body.length - (rest.length + 1)]? = some expr := by
    obtain ⟨before, split⟩ := left
    simp [← split]
  have placedAt : closure.PlacedAt program node := by
    cases closurePlaced with
    | function placed inside =>
      obtain ⟨place, known, placedAt⟩ := placed
      rw [recorded] at known
      cases known
      exact placedAt
  obtain ⟨names, site, bodySees⟩ := placedAt.body found
  refine ⟨fresh, names, here ▸ site, bodySees args,
    Closure.callScope_each closurePlaced argsPlaced, .plain ?_⟩
  rw [pending]
  exact .body closurePlaced recorded argsPlaced (List.IsSuffix.trans (List.suffix_cons _ _) left)
    sees callerPlaced below

theorem invoke_tracked (settings : Settings) {node : NodePlace} {places : List NodePlace}
    {frame : Frame} {outer : List String} {closure : Closure} {args : List Value}
    (span : Option Span) (fresh : Unmade trail.made state.nextId)
    (pending : trail.pending = node :: places) (calls : trail.resume frame = trail.call)
    (closurePlaced : (Value.function closure).Placed program trail.made)
    (argsPlaced : ∀ arg ∈ args, arg.Placed program trail.made)
    (sees : Sees outer scope) (placed : scope.Placed program trail.made)
    (below : Resumes program trail.made goal outer frames places) :
    Tracked program goal (Machine.invoke settings closure args span scope state remaining frames)
      (trail.accepted frame
        (Machine.invoke settings closure args span scope state remaining frames)) := by
  unfold Machine.invoke
  split
  · exact ⟨fresh, trivial⟩
  · rename_i expr rest whole
    split
    · exact ⟨fresh, trivial⟩
    · rename_i remaining
      obtain ⟨place, recorded⟩ : ∃ place, trail.made closure.id = some place := by
        cases closurePlaced with
        | function known inside => exact ⟨_, known.choose_spec.1⟩
      rw [Trail.accepted_body calls rfl rfl recorded, pending]
      refine body_tracked span ?_ ?_ rfl recorded closurePlaced argsPlaced ?_ sees placed below
      · simpa using fresh
      · simp [whole]
      · exact ⟨[], whole.symm⟩

theorem arguments_tracked (settings : Settings) {node : NodePlace} {places : List NodePlace}
    {frame : Frame} {names last : List String} {target : Value} {done : List Value}
    {rest : List Expr} (span : Option Span) (callee : Expr)
    (fresh : Unmade trail.made state.nextId)
    (pending : trail.pending = node :: places) (calls : trail.resume frame = trail.call)
    (targetPlaced : target.Placed program trail.made)
    (donePlaced : ∀ value ∈ done, value.Placed program trail.made)
    (ahead : Ahead program node (done.length + 1) rest names last) (sees : Sees names scope)
    (placed : scope.Placed program trail.made)
    (below : Resumes program trail.made goal last frames places) :
    Tracked program goal
      (Machine.arguments settings span callee target done rest scope state remaining frames)
      (trail.accepted frame
        (Machine.arguments settings span callee target done rest scope state remaining
          frames)) := by
  cases rest with
  | cons arg rest =>
    obtain ⟨expected, site, within, further⟩ := ahead
    rw [Trail.accepted_argument calls rfl rfl]
    have here : (trail.turn (done.length + 1)).here = node.child (done.length + 1) := by
      simp [Trail.turn, pending]
    refine ⟨fresh, expected, here ▸ site, sees.mono within, placed, .plain ?_⟩
    change Resumes program trail.made goal _ _ trail.pending
    rw [pending]
    exact .argument targetPlaced donePlaced further below
  | nil =>
    cases target with
    | function closure =>
      have argsPlaced : ∀ arg ∈ done.reverse, arg.Placed program trail.made :=
        fun arg member => donePlaced arg (List.mem_reverse.mp member)
      exact invoke_tracked settings span fresh pending calls targetPlaced argsPlaced
        (sees.mono ahead) placed below
    | undefined => exact ⟨fresh, trivial⟩
    | number value => exact ⟨fresh, trivial⟩
    | boolean value => exact ⟨fresh, trivial⟩

theorem accept_tracked (settings : Settings) {value : Value} {frame : Frame}
    (fresh : Unmade trail.made state.nextId)
    (gives : Gives program goal trail value scope (frame :: frames)) :
    Tracked program goal (Machine.accept settings value scope state remaining frame frames)
      (trail.accepted frame
        (Machine.accept settings value scope state remaining frame frames)) := by
  obtain ⟨names, sees, placed, valuePlaced, takes⟩ := gives
  rcases trail with ⟨here, pending, made⟩
  cases takes with
  | naming able resumes =>
    exact ⟨fresh, _, sees.bind _ _, placed.bind _ able, able, .plain resumes⟩
  | plain resumes =>
    cases resumes with
    | define below =>
      exact ⟨fresh, _, sees.bind _ _, placed.bind _ valuePlaced, valuePlaced, .plain below⟩
    | right site within below =>
      exact ⟨fresh, _, site, sees.mono within, placed, .plain (.operate valuePlaced below)⟩
    | @operate _ span symbol left _ _ _ leftPlaced below =>
      simp only [Machine.accept]
      have given := operate_operated symbol span left value
      generalize operate symbol span left value = outcome at given ⊢
      cases given with
      | number result => exact ⟨fresh, names, sees, placed, .number result, .plain below⟩
      | boolean result => exact ⟨fresh, names, sees, placed, .boolean result, .plain below⟩
      | _ => exact ⟨fresh, trivial⟩
    | branch site within below =>
      simp only [Machine.accept]
      split
      · exact ⟨fresh, _, site, sees.mono within, placed, .plain below⟩
      · -- what the consequent would bind is in sight, but stays unbound
        have passed := below.shrink (List.Subset.trans within (Check.subset_after _ _))
        exact ⟨fresh, names, sees, placed, .number 1, .plain passed⟩
    | callee ahead below =>
      simp only [Machine.accept]
      split
      · exact ⟨fresh, trivial⟩
      · exact arguments_tracked settings _ _ fresh rfl rfl valuePlaced
          (fun _ member => absurd member List.not_mem_nil) ahead sees placed below
    | argument targetPlaced donePlaced ahead below =>
      exact arguments_tracked settings _ _ fresh rfl rfl targetPlaced
        (List.forall_mem_cons.mpr ⟨valuePlaced, donePlaced⟩) ahead sees placed below
    | @body _ outer _ closure _ rest _ _ _ _ closurePlaced recorded argsPlaced left callerSees
        callerPlaced below =>
      cases rest with
      | nil =>
        -- what the body bound is lost with its scope
        refine ⟨?_, outer, callerSees, callerPlaced, valuePlaced, .plain below⟩
        simpa [Machine.accept, Machine.giving] using fresh
      | cons expr rest =>
        exact body_tracked _ fresh rfl rfl recorded closurePlaced argsPlaced left callerSees
          callerPlaced below

theorem reject_tracked (settings : Settings) {error : EvalError} {frame : Frame} {next : Trail}
    (fresh : Unmade next.made state.nextId) :
    Tracked program goal (Machine.reject settings error scope state remaining frame frames)
      next := by
  cases frame with
  | body span closure args rest caller =>
    refine ⟨?_, trivial⟩
    simpa [Machine.reject, Machine.giving] using fresh
  | _ => exact ⟨fresh, trivial⟩

end Steps

theorem tracked_step {program : Program} {goal : List String} {settings : Settings}
    {m next : Machine} {trail : Trail} (tracked : Tracked program goal m trail)
    (stepped : m.step settings = .inl next) :
    Tracked program goal next (trail.follow m next) := by
  obtain ⟨fresh, control⟩ := tracked
  rcases m with ⟨mode, scope, state, remaining, frames⟩
  cases mode with
  | eval expr =>
    cases Sum.inl.inj stepped
    exact unfoldExpr_tracked fresh control
  | give outcome =>
    cases frames with
    | nil => simp [Machine.step] at stepped
    | cons frame frames =>
      cases outcome with
      | ok value =>
        cases Sum.inl.inj stepped
        exact accept_tracked settings fresh control
      | error error =>
        cases Sum.inl.inj stepped
        refine reject_tracked settings fun id above => ?_
        exact (congrFun (trail.accepted_made frame _) id).trans (fresh id above)

/-! ## What an execution keeps -/

namespace Program

variable {program : Program} {settings : Settings}

def namesAfter (program : Program) (count : Nat) : List String :=
  Check.afterAll (program.statements.take count) []

theorem namesAfter_succ {index : Nat} {statement : Expr}
    (found : program.statements[index]? = some statement) :
    program.namesAfter (index + 1) = Check.after statement (program.namesAfter index) := by
  simp only [namesAfter, List.take_add_one, found, Option.toList_some, Check.afterAll_append,
    Check.afterAll]

theorem opening_tracked {index : Nat} {statement : Expr} {scope : Scope} {state : EvalState}
    {made : Origins} (found : program.statements[index]? = some statement)
    (sees : Sees (program.namesAfter index) scope) (placed : scope.Placed program made)
    (fresh : Unmade made state.nextId) :
    Tracked program (program.namesAfter (index + 1))
      (Machine.opening settings index statement scope state) (Trail.atStatement index made) := by
  have site : program.site? ⟨index, []⟩ = some ⟨statement, program.namesAfter index⟩ := by
    simp only [site?, found, Option.bind_some, Site.descend?, namesAfter]
  refine ⟨?_, program.namesAfter index, site, sees, placed, .plain (.ended ?_)⟩
  · simpa [Machine.opening, Machine.evaluating, Trail.atStatement] using fresh
  · rw [namesAfter_succ found]
    exact List.Subset.refl _

theorem Reaches.tracked {nextId index : Nat} {m : Machine} {trail : Trail}
    (reached : program.Reaches settings Scope.empty nextId index m trail) :
    Tracked program (program.namesAfter (index + 1)) m trail := by
  induction reached with
  | start found =>
    refine opening_tracked found sees_empty Scope.empty_each ?_
    intro id _
    rfl
  | step _ stepped ih => exact tracked_step ih stepped
  | statement _ ended _ found ih =>
    obtain ⟨fresh, control⟩ := ih
    rw [Machine.step_eq_inr ended] at fresh control
    obtain ⟨names, sees, placed, _, takes⟩ := control
    refine opening_tracked found (sees.mono takes.ended) placed ?_
    simpa [Machine.resuming, Machine.giving] using fresh

/-- The read at this place is reported as one of a name that is never bound, when `defined` are the
names that any definition may bind. -/
def Flags (program : Program) (defined : List String) (place : NodePlace) (span : Span)
    (name : String) : Prop :=
  ∃ names, program.site? place = some ⟨.read span name, names⟩ ∧ name ≠ "" ∧ name ∉ names ∧
    name ∉ defined

theorem neverBound_mem_reports {defined : List String} {span : Span} {name : String} :
    Check.neverBound span name ∈ program.reports defined ↔
      ∃ place, program.Flags defined place span name := by
  constructor
  · intro member
    rcases reports_own member with stale | ⟨place, site, absent, found, isMissing, isOwn⟩
    · have sameCode : Code.undefined = .bodyScope := Code.text_inj stale.code
      cases sameCode
    · obtain ⟨isRead, nonempty, unseen, undefined⟩ := Check.neverBound_mem_own isMissing isOwn
      exact ⟨place, site.names, isRead ▸ found, nonempty, unseen, undefined⟩
  · rintro ⟨place, names, found, nonempty, unseen, undefined⟩
    obtain ⟨absent, _, reported⟩ := own_subset_reports defined found
    refine reported ?_
    simp [Check.own, nonempty, unseen, undefined]

/-- A read that is reported as one of a name never bound has no value. -/
theorem Flags.unbound {defined names : List String} {place : NodePlace} {span : Span}
    {name : String} {scope : Scope} (flagged : program.Flags defined place span name)
    (site : program.site? place = some ⟨.read span name, names⟩) (sees : Sees names scope) :
    scope.get name = .undefined := by
  obtain ⟨others, found, nonempty, unseen, _⟩ := flagged
  have same : names = others := by
    rw [site] at found
    exact congrArg Site.names (Option.some.inj found)
  exact Scope.get_eq_undefined fun bound => unseen (same ▸ sees name nonempty bound)

/-- Execution from the empty scope, under any limit: at every read it comes to, the name is bound
only if it is in sight where the read is checked, the empty name apart.  So a read that is reported
as one of a name never bound has no value, whenever it is evaluated.  The reads meant are those
reported, whatever the names that definitions may bind are taken to be, and the machines reached are
all of the execution. -/
theorem bound_names_in_sight (settings : Settings) (program : Program) (nextId : Nat) :
    (∀ (index : Nat) (m : Machine) (trail : Trail) (span : Span) (name : String),
      program.Reaches settings Scope.empty nextId index m trail →
      m.control = .eval (.read span name) →
      ∃ names, program.site? trail.here = some ⟨.read span name, names⟩ ∧
        (name ≠ "" → m.scope.has name = true → name ∈ names) ∧
        ∀ defined, program.Flags defined trail.here span name →
          m.step settings =
            .inl (.giving (.ok .undefined) m.scope m.state m.remaining m.frames)) ∧
    checkProgram (some program) = program.reports program.definedNames ∧
    (∀ (defined : List String) (span : Span) (name : String),
      Check.neverBound span name ∈ program.reports defined ↔
        ∃ place, program.Flags defined place span name) ∧
    (program.statements ≠ [] →
      ∃ index m trail evaluated, program.Reaches settings Scope.empty nextId index m trail ∧
        m.step settings = .inr evaluated ∧
        (program.execute settings Scope.empty nextId).EndsAt program 0 index evaluated) := by
  refine ⟨?_, checkProgram_eq_reports program, fun defined span name => neverBound_mem_reports,
    execute_reaches settings program _ nextId⟩
  intro index m trail span name reached reading
  have tracked := reached.tracked.control
  rcases m with ⟨control, scope, state, remaining, frames⟩
  obtain rfl : control = .eval (.read span name) := reading
  obtain ⟨names, site, sees, _⟩ := tracked
  refine ⟨names, site, sees name, ?_⟩
  intro defined flagged
  change Sum.inl (Machine.giving (.ok (scope.get name)) scope state remaining frames) = _
  rw [flagged.unbound site sees]

def readsBoth : Program :=
  ⟨Span.zero, [.call Span.zero (.function Span.zero ["x"]
    [.read Span.zero "x", .read Span.zero "y"]) [.literal Span.zero 1]]⟩

theorem bound_names_in_sight_readsBoth :
    (∃ m trail names, readsBoth.Reaches ⟨1, false, ""⟩ Scope.empty 0 0 m trail ∧
      m.control = .eval (.read Span.zero "x") ∧ m.scope.has "x" = true ∧
      readsBoth.site? trail.here = some ⟨.read Span.zero "x", names⟩ ∧ "x" ∈ names) ∧
    (∃ m trail, readsBoth.Reaches ⟨1, false, ""⟩ Scope.empty 0 0 m trail ∧
      m.control = .eval (.read Span.zero "y") ∧
      readsBoth.Flags readsBoth.definedNames trail.here Span.zero "y" ∧
      m.step ⟨1, false, ""⟩ =
        .inl (.giving (.ok .undefined) m.scope m.state m.remaining m.frames)) ∧
    ∃ index m trail evaluated, readsBoth.Reaches ⟨1, false, ""⟩ Scope.empty 0 index m trail ∧
      m.step ⟨1, false, ""⟩ = .inr evaluated ∧
      (readsBoth.execute ⟨1, false, ""⟩ Scope.empty 0).EndsAt readsBoth 0 index evaluated := by
  obtain ⟨sound, _, _, whole⟩ := bound_names_in_sight ⟨1, false, ""⟩ readsBoth 0
  have start : readsBoth.Reaches ⟨1, false, ""⟩ Scope.empty 0 0 _ _ := .start rfl
  have first := ((((start.step rfl).step rfl).step rfl).step rfl).step rfl
  have second := (first.step rfl).step rfl
  obtain ⟨names, site, seen, _⟩ := sound _ _ _ Span.zero "x" first rfl
  obtain ⟨_, _, _, silent⟩ := sound _ _ _ Span.zero "y" second rfl
  have flagged : readsBoth.Flags readsBoth.definedNames ⟨0, [1, 0]⟩ Span.zero "y" :=
    ⟨["x"], rfl, by decide, by decide, by decide⟩
  exact ⟨⟨_, _, names, first, rfl, rfl, site, seen (by decide) rfl⟩,
    ⟨_, _, second, rfl, flagged, silent _ flagged⟩, whole (by decide)⟩

end Program

end Sapling
