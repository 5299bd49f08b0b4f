import Sapling.Proofs.Coverage
import Sapling.Proofs.DocumentNodes

/-!
# Programs that were read

Every node of a program that was read from a document has been written there: it is one that a
document can spell, and it stands in the document's file at a line and a column counted from one
(`Expr.WrittenIn`).  This holds of the statements and passes to all nodes inside them
(`Program.Contains.written`).

Trees can be compared, so that the program in a given document can be computed.
-/

set_option autoImplicit false

namespace Sapling

open Yaml (Node)

/-! ## Comparing trees -/

mutual

def Expr.same : Expr → Expr → Bool
  | .hole, .hole => true
  | .literal span value, .literal place other => span = place ∧ value = other
  | .read span name, .read place other => span = place ∧ name = other
  | .define span name value, .define place other part =>
    decide (span = place ∧ name = other) && value.same part
  | .binary span symbol left right, .binary place other first second =>
    decide (span = place ∧ symbol = other) && left.same first && right.same second
  | .guarded span condition consequent, .guarded place first second =>
    decide (span = place) && condition.same first && consequent.same second
  | .function span params body, .function place others exprs =>
    decide (span = place ∧ params = others) && sameAll body exprs
  | .call span callee args, .call place other exprs =>
    decide (span = place) && callee.same other && sameAll args exprs
  | _, _ => false

def Expr.sameAll : List Expr → List Expr → Bool
  | [], [] => true
  | expr :: rest, other :: others => expr.same other && sameAll rest others
  | _, _ => false

end

theorem Expr.sameAll_iff {exprs others : List Expr}
    (each : ∀ expr ∈ exprs, ∀ other, expr.same other = true ↔ expr = other) :
    sameAll exprs others = true ↔ exprs = others := by
  induction exprs generalizing others with
  | nil => cases others <;> simp [sameAll]
  | cons expr rest ih =>
    obtain ⟨first, later⟩ := List.forall_mem_cons.mp each
    cases others with
    | nil => simp [sameAll]
    | cons other others => simp [sameAll, first, ih later]

theorem Expr.same_iff (expr : Expr) : ∀ other, expr.same other = true ↔ expr = other := by
  induction expr using children_induction with
  | node expr ih =>
    intro other
    cases expr with
    | hole => cases other <;> simp [same]
    | literal span value => cases other <;> simp [same]
    | read span name => cases other <;> simp [same]
    | define span name value =>
      cases other <;> simp [same, ih value (by simp [children]), and_assoc]
    | binary span symbol left right =>
      cases other <;>
        simp [same, ih left (by simp [children]), ih right (by simp [children]), and_assoc]
    | guarded span condition consequent =>
      cases other <;>
        simp [same, ih condition (by simp [children]), ih consequent (by simp [children]),
          and_assoc]
    | function span params body =>
      have all : ∀ others, sameAll body others = true ↔ body = others := fun _ => sameAll_iff ih
      cases other <;> simp [same, all, and_assoc]
    | call span callee args =>
      have all : ∀ others, sameAll args others = true ↔ args = others := fun _ =>
        sameAll_iff fun arg member => ih arg (by simp [children, member])
      cases other <;> simp [same, ih callee (by simp [children]), all, and_assoc]

instance : DecidableEq Expr := fun expr other =>
  decidable_of_iff (expr.same other = true) (expr.same_iff other)

deriving instance DecidableEq for Program

/-! ## Nodes of documents -/

/-- The node can be spelled and stands in the file. -/
def Expr.WrittenIn (file : String) (node : Expr) : Prop :=
  node.Spellable ∧ node.span.file = file ∧ 1 ≤ node.span.line ∧ 1 ≤ node.span.column

theorem Expr.WrittenIn.known {file : String} {node : Expr} (written : node.WrittenIn file) :
    node.span.known? = some node.span := by
  have line := written.2.2.1
  have placed : node.span.isZero = false := by
    rw [Span.isZero, beq_eq_false_iff_ne]
    intro zero
    rw [zero] at line
    exact absurd line (by decide)
  simp [Span.known?, placed]

theorem SpellsName.nonempty {node : Node} {name : String} (spelled : SpellsName node name) :
    name ≠ "" := by
  cases spelled with
  | scalar mark tag style nonempty => exact nonempty

theorem SpellsParams.nonempty {node : Node} {params : List String}
    (spelled : SpellsParams node params) : "" ∉ params := by
  cases spelled with
  | nothing null => exact List.not_mem_nil
  | list mark tag names =>
    induction names with
    | nil => exact List.not_mem_nil
    | cons named others ih =>
      exact not_or.mpr ⟨named.nonempty.symm, ih⟩ ∘ List.mem_cons.mp

theorem Span.ofNode_placed (file : String) (node : Node) :
    (Span.ofNode file node).file = file ∧ 1 ≤ (Span.ofNode file node).line ∧
      1 ≤ (Span.ofNode file node).column := by
  refine ⟨rfl, ?_, ?_⟩ <;> simp only [Span.ofNode, Node.line, Node.column] <;> omega

/-- What passes from the statements of a program to the children holds of all its nodes. -/
theorem Program.Contains.of_hereditary {p : Expr → Prop} (hereditary : Hereditary p)
    {program : Program} (holds : ∀ statement ∈ program.statements, p statement) {node : Expr}
    (contains : program.Contains node) : p node := by
  obtain ⟨place, names, found⟩ := contains
  exact Program.site?_hereditary hereditary holds found

section Spelled
variable [Yaml.Library] {file : String}

theorem SpellsAll.exists_node {items : List Node} {exprs : List Expr}
    (spelled : SpellsAll file items exprs) : ∀ expr ∈ exprs, ∃ node, Spells file node expr := by
  induction exprs generalizing items with
  | nil => nofun
  | cons expr rest ih =>
    cases spelled with
    | cons first others => exact List.forall_mem_cons.mpr ⟨⟨_, first⟩, ih others⟩

theorem SpellsList.exists_node {list : Option Node} {exprs : List Expr}
    (spelled : SpellsList file list exprs) : ∀ expr ∈ exprs, ∃ node, Spells file node expr := by
  cases spelled with
  | absent => nofun
  | nothing null => nofun
  | list mark tag each => exact each.exists_node

theorem Spells.written {node : Node} {expr : Expr} (spelled : Spells file node expr) :
    expr.WrittenIn file ∧ ∀ child ∈ expr.children, ∃ part, Spells file part child := by
  cases spelled with
  | literal fields number => exact ⟨⟨trivial, Span.ofNode_placed file _⟩, nofun⟩
  | read fields named => exact ⟨⟨named.nonempty, Span.ofNode_placed file _⟩, nofun⟩
  | define fields named value =>
    exact ⟨⟨named.nonempty, Span.ofNode_placed file _⟩,
      by simpa [Expr.children] using ⟨_, value⟩⟩
  | binary fields operates left right =>
    cases operates with
    | scalar _ _ _ op =>
      exact ⟨⟨⟨op, rfl⟩, Span.ofNode_placed file _⟩,
        by simpa [Expr.children] using ⟨⟨_, left⟩, ⟨_, right⟩⟩⟩
  | guarded fields tested then_ =>
    exact ⟨⟨trivial, Span.ofNode_placed file _⟩,
      by simpa [Expr.children] using ⟨⟨_, tested⟩, ⟨_, then_⟩⟩⟩
  | function fields named body =>
    exact ⟨⟨named.nonempty, Span.ofNode_placed file _⟩, body.exists_node⟩
  | call fields calls args =>
    exact ⟨⟨trivial, Span.ofNode_placed file _⟩,
      List.forall_mem_cons.mpr ⟨⟨_, calls⟩, args.exists_node⟩⟩

theorem SpellsDocument.exists_node {document : Option Yaml.Document} {program : Program}
    (spelled : SpellsDocument file document program) :
    ∀ statement ∈ program.statements, ∃ node, Spells file node statement := by
  cases spelled with
  | absent => nofun
  | single anchored spelled => simpa using ⟨_, spelled⟩
  | list mark tag anchored each => exact each.exists_node

/-- The statements of a program that was read are spelled by nodes of its document. -/
theorem readProgram_spelled {bytes : List UInt8} {program : Program}
    (read : readProgram file bytes = .ok program) :
    ∀ statement ∈ program.statements, ∃ node, Spells file node statement := by
  unfold readProgram at read
  split at read
  · exact (readDocument_eq_ok_iff.mp read).exists_node
  · cases read

theorem Program.Contains.written {bytes : List UInt8} {program : Program}
    {node : Expr} (contains : program.Contains node)
    (read : readProgram file bytes = .ok program) : node.WrittenIn file := by
  have spelled : ∃ origin, Spells file origin node := by
    refine contains.of_hereditary (p := fun expr => ∃ origin, Spells file origin expr) ?_
      (readProgram_spelled read)
    rintro expr ⟨origin, spelled⟩
    exact spelled.written.2
  obtain ⟨origin, spelled⟩ := spelled
  exact spelled.written.1

end Spelled

end Sapling
