import Sapling.Proofs.Sites

/-!
# Programs that pass the check

The errors of the check are about the shape of the tree.  A node can be wrong in itself: it is
missing, its operator is unknown, its name is empty, or its parameters are (`Expr.WellFormed`).  The
check reports an error of a node exactly if it is wrong in itself (`Check.own_passes_iff`), and it
comes to every node, so a tree passes exactly if no node in it is wrong (`Check.expr_passes_iff`).
Everything else that it has to say is a warning.
-/

set_option autoImplicit false

namespace Sapling

/-- The node is there, its operator can be evaluated, its name is not empty, and its parameters have
names of their own. -/
def Expr.WellFormed : Expr → Prop
  | .hole => False
  | .literal .. | .guarded .. | .call .. => True
  | .read _ name | .define _ name _ => name ≠ ""
  | .binary _ symbol _ _ => symbol ∈ ["+", "-", ">"]
  | .function _ params _ => "" ∉ params ∧ params.Nodup

def Diagnostic.Pass (diagnostics : List Diagnostic) : Prop := ∀ d ∈ diagnostics, d.isError = false

namespace Diagnostic

theorem hasErrors_eq_false_iff {diagnostics : List Diagnostic} :
    hasErrors diagnostics = false ↔ Pass diagnostics := by
  simp [hasErrors, Pass]

@[simp] theorem pass_nil : Pass [] := List.forall_mem_nil _

@[simp] theorem pass_singleton {d : Diagnostic} : Pass [d] ↔ d.isError = false := by
  simp [Pass]

@[simp] theorem pass_append {first second : List Diagnostic} :
    Pass (first ++ second) ↔ Pass first ∧ Pass second := by
  simp [Pass, or_imp, forall_and]

theorem Pass.subset {fewer all : List Diagnostic} (pass : Pass all) (sub : fewer ⊆ all) :
    Pass fewer :=
  fun d member => pass d (sub member)

end Diagnostic

namespace Check

open Diagnostic

theorem IsMissing.not_pass {absent : Diagnostic} (isMissing : IsMissing absent) :
    ¬ Pass [absent] := by
  simp [isMissing.2]

theorem IsStale.isError {d : Diagnostic} (stale : IsStale d) : d.isError = false := by
  obtain ⟨span, name, captured, rfl⟩ := stale
  rfl

theorem params_pass_iff {span : Span} {params : List String} :
    Pass (Check.params span [] params) ↔ "" ∉ params ∧ params.Nodup := by
  have fine : Check.params span [] params = [] ↔ "" ∉ params ∧ params.Nodup := by
    simp [params_eq_nil_iff]
  rw [← fine]
  constructor
  · intro pass
    -- whatever is reported of parameters is an error
    refine List.eq_nil_iff_forall_not_mem.mpr fun d member => ?_
    exact absurd ((params_isError member).symm.trans (pass d member)) nofun
  · intro empty
    rw [empty]
    exact pass_nil

theorem own_passes_iff (defined names : List String) {node : Expr} {absent : Diagnostic}
    (isMissing : IsMissing absent) :
    Pass (own defined node absent names) ↔ node.WellFormed := by
  cases node with
  | hole => exact iff_of_false isMissing.not_pass not_false
  | literal span value => exact iff_of_true pass_nil trivial
  | guarded span condition consequent => exact iff_of_true pass_nil trivial
  | call span callee args => exact iff_of_true pass_nil trivial
  | read span name =>
    by_cases unnamed : name = ""
    · simp [own, Expr.WellFormed, unnamed, emptyName, Diagnostic.error, isError]
    · rw [own, if_neg unnamed]
      refine iff_of_true ?_ unnamed
      split
      · exact pass_nil
      · exact pass_singleton.mpr rfl
  | define span name value =>
    by_cases unnamed : name = ""
    · simp [own, Expr.WellFormed, unnamed, emptyName, Diagnostic.error, isError]
    · simp [own, Expr.WellFormed, unnamed]
  | binary span symbol left right =>
    cases found : Operator.ofSymbol? symbol with
    | none =>
      have unknown := Operator.ofSymbol?_eq_none_iff.mp found
      rw [own, found]
      exact iff_of_false (by simp [unknownOperator, Diagnostic.error, isError]) unknown
    | some op =>
      have known : symbol ∈ ["+", "-", ">"] := by
        rw [Operator.ofSymbol?_eq_some_iff.mp found]
        cases op <;> decide
      rw [own, found]
      exact iff_of_true pass_nil known
  | function span params body =>
    have warns : Pass (if body.isEmpty then [noBody span] else []) := by
      split
      · exact pass_singleton.mpr rfl
      · exact pass_nil
    rw [own, pass_append, params_pass_iff]
    exact and_iff_left warns

theorem expr_passes_iff (defined : List String) (node : Expr) : ∀ (absent : Diagnostic)
    (names : List String), IsMissing absent →
      (Pass (Check.expr defined node absent names).diagnostics ↔
        node.Everywhere Expr.WellFormed) := by
  induction node using Expr.children_induction with
  | node node ih =>
    intro absent names isMissing
    rw [Expr.everywhere_iff, ← own_passes_iff defined names isMissing]
    constructor
    · intro pass
      refine ⟨pass.subset (own_subset defined node absent names), fun child member => ?_⟩
      obtain ⟨index, found⟩ := List.mem_iff_getElem?.mp member
      obtain ⟨inner, innerMissing, reported⟩ := check_child defined names absent found
      exact (ih child member inner _ innerMissing).mp (pass.subset reported)
    · rintro ⟨ownPass, below⟩ d member
      rcases check_cases member with isOwn | isStale | ⟨index, child, inner, found, missing, isIn⟩
      · exact ownPass d isOwn
      · exact isStale.isError
      · have isChild := List.mem_of_getElem? found
        exact (ih child isChild inner _ missing).mpr (below child isChild) d isIn

theorem statements_pass_iff (defined : List String) (index : Nat) (statements : List Expr)
    (names : List String) :
    Pass (Check.statements defined index statements names) ↔
      ∀ statement ∈ statements, statement.Everywhere Expr.WellFormed := by
  constructor
  · intro pass statement member
    obtain ⟨position, found⟩ := List.mem_iff_getElem?.mp member
    obtain ⟨absent, isMissing, reported⟩ := statements_site defined index names found
    exact (expr_passes_iff defined statement absent _ isMissing).mp (pass.subset reported)
  · intro wellFormed d member
    obtain ⟨position, statement, absent, found, isMissing, isIn⟩ := statements_cases member
    have whole := wellFormed statement (List.mem_of_getElem? found)
    exact (expr_passes_iff defined statement absent _ isMissing).mpr whole d isIn

end Check

/-- The check of a program reports no error exactly if there is a program, and in all its trees
every node is there, every operator is one that can be evaluated, no name that is read, defined or
taken as a parameter is empty, and no function takes two parameters of one name. -/
theorem checkProgram_passes_iff (program? : Option Program) :
    Diagnostic.hasErrors (checkProgram program?) = false ↔
      ∃ program, program? = some program ∧
        ∀ statement ∈ program.statements, statement.Everywhere Expr.WellFormed := by
  cases program? with
  | none => exact iff_of_false (by decide) (by simp)
  | some program =>
    rw [Diagnostic.hasErrors_eq_false_iff, checkProgram, Check.statements_pass_iff]
    simp

end Sapling
