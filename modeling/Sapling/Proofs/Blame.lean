import Sapling.Proofs.Decoded
import Sapling.Run
import Sapling.Text.Utf8

/-!
# The node to blame

A document that was read and then fails in a run reports where: at an operation or a call that
stands in it, or, when several documents are run on one scope, in one that was run before, since a
function keeps the code it was made with.  A function without a body and calls that nest too deep
are reported at a call.

Which node an error comes from is known from the evaluation (`Program.execute_standsIn`); that it
has a place, and that no node is missing and no operator unknown, comes from the reading
(`Program.Contains.written`).
-/

set_option autoImplicit false

namespace Sapling

/-- The error is reported at a call of the program or, if it is not about an empty body or the depth
of calls, at an operation of the program. -/
def EvalError.BlamedIn (program : Program) (error : EvalError) : Prop :=
  ∃ span, error.span = some span ∧
    ((∃ callee args, program.Contains (.call span callee args)) ∨
      (∃ symbol left right, program.Contains (.binary span symbol left right)) ∧
        error.failure.code ≠ .emptyBody ∧ error.failure.code ≠ .stackOverflow)

/-! ## One error -/

section Blame
variable [Yaml.Library] {programs : List Program}
  (readable : ∀ program ∈ programs, ∃ file bytes, readProgram file bytes = .ok program)
include readable

theorem StandsIn.written {node : Expr} (stands : StandsIn programs node) :
    ∃ program ∈ programs, program.Contains node ∧ ∃ file, node.WrittenIn file := by
  obtain ⟨program, member, contains⟩ := stands
  obtain ⟨file, bytes, read⟩ := readable program member
  exact ⟨program, member, contains, file, contains.written read⟩

theorem CallAt.blamed {failure : Failure} {span : Option Span}
    (node : CallAt (StandsIn programs) span) :
    ∃ program ∈ programs, EvalError.BlamedIn program ⟨failure, span⟩ := by
  obtain ⟨place, callee, args, rfl, stands⟩ := node
  obtain ⟨program, member, contains, file, isWritten⟩ := stands.written readable
  exact ⟨program, member, place, isWritten.known, .inl ⟨callee, args, contains⟩⟩

theorem OperatorAt.blamed {symbol : String} {failure : Failure} {span : Option Span}
    (node : OperatorAt (StandsIn programs) symbol span)
    (other : failure.code ≠ .emptyBody ∧ failure.code ≠ .stackOverflow) :
    ∃ program ∈ programs, EvalError.BlamedIn program ⟨failure, span⟩ := by
  obtain ⟨place, left, right, rfl, stands⟩ := node
  obtain ⟨program, member, contains, file, isWritten⟩ := stands.written readable
  exact ⟨program, member, place, isWritten.known, .inr ⟨⟨symbol, left, right, contains⟩, other⟩⟩

theorem EvalError.From.code_mem {error : EvalError} (origin : error.From (StandsIn programs)) :
    error.failure.code ∈ [Code.type, .undefined, .emptyBody, .stackOverflow] := by
  obtain ⟨failure, span⟩ := error
  cases failure with
  | missingExpression =>
    have hole : StandsIn programs .hole := origin
    obtain ⟨program, member, contains, file, spellable, _⟩ := hole.written readable
    exact spellable.elim
  | unknownOperator symbol =>
    obtain ⟨unknown, place, left, right, _, stands⟩ := origin
    obtain ⟨program, member, contains, file, ⟨op, rfl⟩, _⟩ := stands.written readable
    rw [Operator.ofSymbol?_symbol] at unknown
    cases unknown
  | _ => simp [Failure.code]

theorem EvalError.From.blamed {error : EvalError} (origin : error.From (StandsIn programs)) :
    ∃ program ∈ programs, error.BlamedIn program := by
  have code := origin.code_mem readable
  obtain ⟨failure, span⟩ := error
  cases failure with
  | missingExpression => simp [Failure.code] at code
  | unknownOperator symbol => simp [Failure.code] at code
  | undefinedOperand symbol => exact OperatorAt.blamed readable origin (by simp [Failure.code])
  | wrongOperand symbol type => exact OperatorAt.blamed readable origin (by simp [Failure.code])
  | notFunction type => exact CallAt.blamed readable origin
  | undefinedCallee => exact CallAt.blamed readable origin
  | unboundCallee name => exact CallAt.blamed readable origin
  | tooDeep limit => exact CallAt.blamed readable origin
  | emptyBody => exact CallAt.blamed readable origin.1

end Blame

/-! ## Documents on a shared scope -/

structure DocumentRun where
  settings : Settings
  file : String
  bytes : List UInt8

/-- The scope and the next identity that a run of a document leaves: one that cannot be read leaves
them as they were. -/
def leftBy (ran : Except (List Diagnostic) Execution) (scope : Scope) (nextId : Nat) :
    Scope × Nat :=
  match ran with
  | .ok execution => (execution.scope, execution.state.nextId)
  | .error _ => (scope, nextId)

section Series
variable [Yaml.Library]

/-- Runs documents one after another on what the ones before left bound. -/
def runSeries : List DocumentRun → Scope → (nextId : Nat) →
    List (Except (List Diagnostic) Execution)
  | [], _, _ => []
  | run :: rest, scope, nextId =>
    let ran := runDocument run.settings run.file run.bytes scope nextId
    let left := leftBy ran scope nextId
    ran :: runSeries rest left.1 left.2

def programsOf (runs : List DocumentRun) : List Program :=
  runs.filterMap fun run => (readProgram run.file run.bytes).toOption

theorem mem_programsOf {runs : List DocumentRun} {program : Program} :
    program ∈ programsOf runs ↔
      ∃ run ∈ runs, readProgram run.file run.bytes = .ok program := by
  have readable (run : DocumentRun) :
      (readProgram run.file run.bytes).toOption = some program ↔
        readProgram run.file run.bytes = .ok program := by
    cases readProgram run.file run.bytes <;> simp [Except.toOption]
  simp only [programsOf, List.mem_filterMap, readable]

theorem runDocument_eq_ok_iff {settings : Settings} {file : String} {bytes : List UInt8}
    {scope : Scope} {nextId : Nat} {execution : Execution} :
    runDocument settings file bytes scope nextId = .ok execution ↔
      ∃ program, readProgram file bytes = .ok program ∧
        program.execute settings scope nextId = execution := by
  unfold runDocument
  cases readProgram file bytes <;> simp [Except.map]

/-- A document on a scope that earlier ones left: the node to blame for an error, and the code that
is bound after, stand in one of them or in the document. -/
theorem runDocument_standsIn (run : DocumentRun) {earlier : List DocumentRun} {scope : Scope}
    (bound : scope.From (StandsIn (programsOf earlier))) (nextId : Nat)
    {ran : Except (List Diagnostic) Execution}
    (ended : runDocument run.settings run.file run.bytes scope nextId = ran) :
    (∀ execution error, ran = .ok execution → execution.error = some error →
      error.From (StandsIn (programsOf (earlier ++ [run])))) ∧
      (leftBy ran scope nextId).1.From (StandsIn (programsOf (earlier ++ [run]))) := by
  cases ran with
  | error diagnostics =>
    constructor
    · rintro _ _ ⟨⟩
    · refine bound.mono ?_
      rintro closure ⟨place, stands⟩
      refine ⟨place, stands.mono ?_⟩
      simp [programsOf]
  | ok execution =>
    obtain ⟨program, read, rfl⟩ := runDocument_eq_ok_iff.mp ended
    have more : programsOf (earlier ++ [run]) = programsOf earlier ++ [program] := by
      simp [programsOf, read, Except.toOption]
    have here := program.execute_standsIn run.settings bound nextId
    rw [more]
    refine ⟨?_, here.2⟩
    rintro _ error ⟨⟩ failed
    exact here.1 error failed

theorem runSeries_standsIn (runs : List DocumentRun) :
    ∀ (earlier : List DocumentRun) (scope : Scope) (nextId : Nat),
      scope.From (StandsIn (programsOf earlier)) →
      ∀ (index : Nat) (execution : Execution) (error : EvalError),
        (runSeries runs scope nextId)[index]? = some (.ok execution) →
        execution.error = some error →
        error.From (StandsIn (programsOf (earlier ++ runs.take (index + 1)))) := by
  induction runs with
  | nil =>
    intro earlier scope nextId bound index execution error found failed
    simp [runSeries] at found
  | cons run rest ih =>
    intro earlier scope nextId bound index execution error found failed
    have first := runDocument_standsIn run bound nextId rfl
    rw [runSeries] at found
    cases index with
    | zero =>
      rw [List.getElem?_cons_zero] at found
      simpa using first.1 execution error (Option.some.inj found) failed
    | succ index =>
      rw [List.getElem?_cons_succ] at found
      simpa using ih (earlier ++ [run]) _ _ first.2 index execution error found failed

/-- A run of a document on an empty scope that fails reports a node of the document: a call, or an
operation unless a body was empty or the calls nested too deep.  In a series of documents on one
scope that starts empty, the node stands in one of those run so far. -/
theorem failures_blamed :
    (∀ (settings : Settings) (file : String) (bytes : List UInt8) (nextId : Nat)
      (execution : Execution) (error : EvalError),
      runDocument settings file bytes Scope.empty nextId = .ok execution →
      execution.error = some error →
        ∃ program, readProgram file bytes = .ok program ∧ error.BlamedIn program) ∧
    ∀ (runs : List DocumentRun) (nextId index : Nat) (execution : Execution) (error : EvalError),
      (runSeries runs Scope.empty nextId)[index]? = some (.ok execution) →
      execution.error = some error →
        ∃ run ∈ runs.take (index + 1), ∃ program,
          readProgram run.file run.bytes = .ok program ∧ error.BlamedIn program := by
  have series : ∀ (runs : List DocumentRun) (nextId index : Nat) (execution : Execution)
      (error : EvalError),
      (runSeries runs Scope.empty nextId)[index]? = some (.ok execution) →
      execution.error = some error →
        ∃ run ∈ runs.take (index + 1), ∃ program,
          readProgram run.file run.bytes = .ok program ∧ error.BlamedIn program := by
    intro runs nextId index execution error found failed
    have origin := runSeries_standsIn runs [] Scope.empty nextId Scope.empty_each index execution
      error found failed
    obtain ⟨program, member, blamed⟩ := origin.blamed fun program member => by
      obtain ⟨run, _, read⟩ := mem_programsOf.mp member
      exact ⟨run.file, run.bytes, read⟩
    obtain ⟨run, there, read⟩ := mem_programsOf.mp member
    exact ⟨run, there, program, read, blamed⟩
  refine ⟨?_, series⟩
  intro settings file bytes nextId execution error ran failed
  have found : (runSeries [⟨settings, file, bytes⟩] Scope.empty nextId)[0]? =
      some (.ok execution) := by
    rw [runSeries, ran]
    rfl
  obtain ⟨run, there, program, read, blamed⟩ :=
    series [⟨settings, file, bytes⟩] nextId 0 execution error found failed
  cases List.mem_singleton.mp there
  exact ⟨program, read, blamed⟩

end Series

def DocumentRun.definesFailing : DocumentRun :=
  ⟨⟨1, false, ""⟩, "first.yaml", Text.toBytes
    "'let': 'f'\n'value':\n  'fn': []\n  'body':\n  - 'call':\n      'get': 'x'\n"⟩

def DocumentRun.callsDefined : DocumentRun :=
  ⟨⟨1, false, ""⟩, "second.yaml", Text.toBytes "'call':\n  'get': 'f'\n"⟩

/-- The second document fails at a call that stands in the first.  On its own it fails at the call
that it consists of. -/
theorem failures_blamed_across :
    (∃ execution, (runSeries [.definesFailing, .callsDefined] Scope.empty 0)[1]? =
        some (.ok execution) ∧
      execution.error = some ⟨.unboundCallee "x", some ⟨"first.yaml", 5, 5⟩⟩ ∧
      ∃ run ∈ [DocumentRun.definesFailing, .callsDefined], ∃ program,
        readProgram run.file run.bytes = .ok program ∧
        EvalError.BlamedIn program ⟨.unboundCallee "x", some ⟨"first.yaml", 5, 5⟩⟩) ∧
    ∃ execution program,
      runDocument ⟨1, false, ""⟩ "second.yaml" DocumentRun.callsDefined.bytes Scope.empty 0 =
        .ok execution ∧
      execution.error = some ⟨.unboundCallee "f", some ⟨"second.yaml", 1, 1⟩⟩ ∧
      readProgram "second.yaml" DocumentRun.callsDefined.bytes = .ok program ∧
      EvalError.BlamedIn program ⟨.unboundCallee "f", some ⟨"second.yaml", 1, 1⟩⟩ := by
  have first : readProgram "first.yaml" DocumentRun.definesFailing.bytes =
      .ok ⟨⟨"first.yaml", 1, 1⟩, [.define ⟨"first.yaml", 1, 1⟩ "f"
        (.function ⟨"first.yaml", 3, 3⟩ []
          [.call ⟨"first.yaml", 5, 5⟩ (.read ⟨"first.yaml", 6, 7⟩ "x") []])]⟩ := by
    decide +kernel
  have second : readProgram "second.yaml" DocumentRun.callsDefined.bytes =
      .ok ⟨⟨"second.yaml", 1, 1⟩,
        [.call ⟨"second.yaml", 1, 1⟩ (.read ⟨"second.yaml", 2, 3⟩ "f") []]⟩ := by
    decide +kernel
  obtain ⟨execution, found, failed⟩ : ∃ execution,
      (runSeries [.definesFailing, .callsDefined] Scope.empty 0)[1]? = some (.ok execution) ∧
        execution.error = some ⟨.unboundCallee "x", some ⟨"first.yaml", 5, 5⟩⟩ := by
    simp only [runSeries, runDocument, show DocumentRun.definesFailing.file = "first.yaml" from rfl,
      show DocumentRun.callsDefined.file = "second.yaml" from rfl, first, second, Except.map,
      leftBy,
      Program.execute, executeFrom, Expr.evaluate_eq_eval]
    exact ⟨_, rfl, rfl⟩
  obtain ⟨lone, ran, loneFailed⟩ : ∃ execution,
      runDocument ⟨1, false, ""⟩ "second.yaml" DocumentRun.callsDefined.bytes Scope.empty 0 =
        .ok execution ∧
      execution.error = some ⟨.unboundCallee "f", some ⟨"second.yaml", 1, 1⟩⟩ := by
    simp only [runDocument, second, Except.map, Program.execute, executeFrom,
      Expr.evaluate_eq_eval]
    exact ⟨_, rfl, rfl⟩
  obtain ⟨program, read, blamed⟩ := failures_blamed.1 _ _ _ _ _ _ ran loneFailed
  exact ⟨⟨execution, found, failed, failures_blamed.2 _ _ _ _ _ found failed⟩,
    lone, program, ran, loneFailed, read, blamed⟩

end Sapling
