import Sapling.Proofs.Provenance
import Sapling.Proofs.Sites

/-!
# Failures that the check foretells

A run fails for the shape of the tree in three ways: it comes to a missing expression, to an
operator that does not exist, or it calls a function without a body.  The node to blame stands in
the program that is executed or in one that was executed before on the same scope, since functions
keep the code they were made with.  The check of that program reports it.
-/

set_option autoImplicit false

namespace Sapling

namespace Program

def Contains (program : Program) (expr : Expr) : Prop :=
  ∃ place names, program.site? place = some ⟨expr, names⟩

theorem contains_statement {program : Program} {statement : Expr}
    (member : statement ∈ program.statements) : program.Contains statement := by
  obtain ⟨index, found⟩ := List.mem_iff_getElem?.mp member
  refine ⟨⟨index, []⟩, Check.afterAll (program.statements.take index) [], ?_⟩
  simp only [site?, found, Option.bind_some, Site.descend?]

theorem contains_hereditary (program : Program) : Hereditary program.Contains := by
  rintro expr ⟨place, names, found⟩ child member
  obtain ⟨index, isChild⟩ := List.mem_iff_getElem?.mp member
  refine ⟨place.child index, Check.inside expr names index, ?_⟩
  rw [site?_child found, Site.child?, isChild, Option.map_some]

def ReportsTree (program : Program) : Prop :=
  ∃ d ∈ checkProgram (some program), d.code = Code.ast.text ∧ d.isError = true

def WarnsOfEmptyBody (program : Program) : Prop :=
  ∃ d ∈ checkProgram (some program), d.code = Code.emptyBody.text ∧ d.severity = "warning"

theorem Contains.hole_reported {program : Program} (contains : program.Contains .hole) :
    program.ReportsTree := by
  obtain ⟨place, names, found⟩ := contains
  obtain ⟨absent, isMissing, reported⟩ := own_subset_reports program.definedNames found
  exact ⟨absent, reported (List.mem_singleton.mpr rfl), isMissing⟩

theorem Contains.operator_reported {program : Program} {span : Span} {symbol : String}
    {left right : Expr} (contains : program.Contains (.binary span symbol left right))
    (unknown : Operator.ofSymbol? symbol = none) : program.ReportsTree := by
  obtain ⟨place, names, found⟩ := contains
  obtain ⟨absent, _, reported⟩ := own_subset_reports program.definedNames found
  refine ⟨Check.unknownOperator span symbol, reported ?_, rfl, rfl⟩
  simp [Check.own, unknown]

theorem Contains.emptyBody_warned {program : Program} {span : Span} {params : List String}
    (contains : program.Contains (.function span params [])) : program.WarnsOfEmptyBody := by
  obtain ⟨place, names, found⟩ := contains
  obtain ⟨absent, _, reported⟩ := own_subset_reports program.definedNames found
  refine ⟨Check.noBody span, reported ?_, rfl, rfl⟩
  simp [Check.own]

end Program

def StandsIn (programs : List Program) (expr : Expr) : Prop :=
  ∃ program ∈ programs, program.Contains expr

theorem standsIn_hereditary (programs : List Program) : Hereditary (StandsIn programs) := by
  rintro expr ⟨program, member, contains⟩ child isChild
  exact ⟨program, member, program.contains_hereditary expr contains child isChild⟩

theorem StandsIn.mono {programs more : List Program} (sub : programs ⊆ more) {expr : Expr}
    (stands : StandsIn programs expr) : StandsIn more expr := by
  obtain ⟨program, member, contains⟩ := stands
  exact ⟨program, sub member, contains⟩

/-- The check of one of the programs reports the error, if it is one of the tree or of an empty
body. -/
def EvalError.Foretold (programs : List Program) (error : EvalError) : Prop :=
  (error.failure.code = .ast → ∃ program ∈ programs, program.ReportsTree) ∧
    (error.failure.code = .emptyBody → ∃ program ∈ programs, program.WarnsOfEmptyBody)

theorem EvalError.From.foretold {programs : List Program} {error : EvalError}
    (blamed : error.From (StandsIn programs)) : error.Foretold programs := by
  obtain ⟨failure, span⟩ := error
  cases failure with
  | missingExpression =>
    obtain ⟨program, member, contains⟩ : StandsIn programs .hole := blamed
    exact ⟨fun _ => ⟨program, member, contains.hole_reported⟩, nofun⟩
  | unknownOperator symbol =>
    obtain ⟨unknown, place, left, right, _, program, member, contains⟩ := blamed
    exact ⟨fun _ => ⟨program, member, contains.operator_reported unknown⟩, nofun⟩
  | emptyBody =>
    obtain ⟨_, place, params, program, member, contains⟩ := blamed
    exact ⟨nofun, fun _ => ⟨program, member, contains.emptyBody_warned⟩⟩
  | undefinedOperand symbol => exact ⟨nofun, nofun⟩
  | wrongOperand symbol type => exact ⟨nofun, nofun⟩
  | notFunction type => exact ⟨nofun, nofun⟩
  | undefinedCallee => exact ⟨nofun, nofun⟩
  | unboundCallee name => exact ⟨nofun, nofun⟩
  | tooDeep limit => exact ⟨nofun, nofun⟩

/-! ## Programs on a shared scope -/

/-- Executes programs one after another, each under settings of its own, on what the ones before
left bound.  One that fails does not keep the next from being executed. -/
def executeSeries : List (Settings × Program) → Scope → (nextId : Nat) → List Execution
  | [], _, _ => []
  | (settings, program) :: rest, scope, nextId =>
    let execution := program.execute settings scope nextId
    execution :: executeSeries rest execution.scope execution.state.nextId

/-- A program on a scope that earlier ones left: the node to blame for an error, and the code that
is bound after, stand in one of them or in the program. -/
theorem Program.execute_standsIn (settings : Settings) (program : Program) {earlier : List Program}
    {scope : Scope} (bound : scope.From (StandsIn earlier)) (nextId : Nat) :
    (∀ error, (program.execute settings scope nextId).error = some error →
        error.From (StandsIn (earlier ++ [program]))) ∧
      (program.execute settings scope nextId).scope.From (StandsIn (earlier ++ [program])) := by
  refine Program.execute_from (standsIn_hereditary _) settings ?_ ?_ nextId
  · intro statement member
    exact ⟨program, by simp, contains_statement member⟩
  · refine bound.mono ?_
    rintro closure ⟨place, stands⟩
    exact ⟨place, stands.mono (List.subset_append_left _ _)⟩

theorem executeSeries_standsIn (runs : List (Settings × Program)) :
    ∀ (earlier : List Program) (scope : Scope) (nextId : Nat), scope.From (StandsIn earlier) →
      ∀ (index : Nat) (execution : Execution) (error : EvalError),
        (executeSeries runs scope nextId)[index]? = some execution →
        execution.error = some error →
        error.From (StandsIn (earlier ++ (runs.take (index + 1)).map Prod.snd)) := by
  induction runs with
  | nil =>
    intro earlier scope nextId bound index execution error found failed
    simp [executeSeries] at found
  | cons run rest ih =>
    intro earlier scope nextId bound index execution error found failed
    obtain ⟨settings, program⟩ := run
    have first := program.execute_standsIn settings bound nextId
    cases index with
    | zero =>
      obtain rfl := Option.some.inj found
      simpa using first.1 error failed
    | succ index =>
      have later := ih (earlier ++ [program]) _ _ first.2 index execution error found failed
      simpa using later

/-- On a scope that starts empty, every error of the tree and every call of an empty body is
foretold by the check: by that of the program for a single run, and for a series of runs by that of
a program run so far. -/
theorem structural_failures_foretold :
    (∀ (settings : Settings) (program : Program) (nextId : Nat) (error : EvalError),
      (program.execute settings Scope.empty nextId).error = some error →
        (error.failure.code = .ast → program.ReportsTree) ∧
        (error.failure.code = .emptyBody → program.WarnsOfEmptyBody)) ∧
    ∀ (runs : List (Settings × Program)) (nextId index : Nat) (execution : Execution)
      (error : EvalError),
      (executeSeries runs Scope.empty nextId)[index]? = some execution →
      execution.error = some error →
        error.Foretold ((runs.take (index + 1)).map Prod.snd) := by
  have empty : Scope.empty.From (StandsIn []) := Scope.empty_each
  constructor
  · intro settings program nextId error failed
    have blamed := (program.execute_standsIn settings empty nextId).1 error failed
    simpa [EvalError.Foretold] using blamed.foretold
  · intro runs nextId index execution error found failed
    exact (executeSeries_standsIn runs [] Scope.empty nextId empty index execution error found
      failed).foretold

def bodilessSeries : List (Settings × Program) :=
  [(⟨1, false, ""⟩, ⟨Span.zero, [.define Span.zero "f" (.function Span.zero [] [])]⟩),
    (⟨1, false, ""⟩, ⟨Span.zero, [.call Span.zero (.read Span.zero "f") []]⟩)]

def Program.incomplete : Program := ⟨Span.zero, [.hole]⟩

theorem structural_failures_foretold_bodiless :
    (∃ execution error, (executeSeries bodilessSeries Scope.empty 0)[1]? = some execution ∧
      execution.error = some error ∧ error.failure = .emptyBody ∧
      ∃ program ∈ bodilessSeries.map Prod.snd, program.WarnsOfEmptyBody) ∧
    ∃ error, (Program.incomplete.execute ⟨1, false, ""⟩ Scope.empty 0).error = some error ∧
      error.failure = .missingExpression ∧ Program.incomplete.ReportsTree := by
  have called : (executeSeries bodilessSeries Scope.empty 0)[1]?.bind Execution.error =
      some ⟨.emptyBody, none⟩ := by
    simp only [executeSeries, bodilessSeries, Program.execute, executeFrom, Expr.evaluate_eq_eval]
    rfl
  have missing : (Program.incomplete.execute ⟨1, false, ""⟩ Scope.empty 0).error =
      some ⟨.missingExpression, none⟩ := by
    simp only [Program.execute, Program.incomplete, executeFrom, Expr.evaluate_eq_eval]
    rfl
  obtain ⟨execution, found, failed⟩ := Option.bind_eq_some_iff.mp called
  have warned := structural_failures_foretold.2 bodilessSeries 0 1 execution _ found failed
  have reported := structural_failures_foretold.1 _ _ _ _ missing
  exact ⟨⟨execution, _, found, failed, rfl, warned.2 rfl⟩, _, missing, rfl, reported.1 rfl⟩

end Sapling
