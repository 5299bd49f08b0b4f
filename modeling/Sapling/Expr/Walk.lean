import Sapling.Expr

/-!
# Walking a tree

A walk visits the nodes of a tree from the root down, a node before its children and children in
the order they are evaluated.  The visitor carries a state and decides at each node whether to go
inside.
-/

set_option autoImplicit false

namespace Sapling

/-- Visits a node: the new state, and whether to go inside. -/
abbrev Visitor (σ : Type) := Expr → σ → σ × Bool

namespace Expr

variable {σ : Type}

def visitThen (visit : Visitor σ) (expr : Expr) (inside : σ → σ) (state : σ) : σ :=
  let (state, enters) := visit expr state
  if enters then inside state else state

mutual

/-- Walks a tree.  There is nothing to visit where a child is missing. -/
def walk (visit : Visitor σ) : Expr → σ → σ
  | .hole => fun state => state
  | .literal span value => visitThen visit (.literal span value) id
  | .read span name => visitThen visit (.read span name) id
  | .define span name value => visitThen visit (.define span name value) (value.walk visit)
  | .binary span symbol left right =>
    visitThen visit (.binary span symbol left right) fun state =>
      right.walk visit (left.walk visit state)
  | .guarded span condition consequent =>
    visitThen visit (.guarded span condition consequent) fun state =>
      consequent.walk visit (condition.walk visit state)
  | .function span params body => visitThen visit (.function span params body) (walkAll visit body)
  | .call span callee args =>
    visitThen visit (.call span callee args) fun state =>
      walkAll visit args (callee.walk visit state)

def walkAll (visit : Visitor σ) : List Expr → σ → σ
  | [] => fun state => state
  | expr :: rest => fun state => walkAll visit rest (expr.walk visit state)

end

theorem walk_eq (visit : Visitor σ) {expr : Expr} (present : expr.isHole = false) :
    expr.walk visit = visitThen visit expr (walkAll visit expr.children) := by
  cases expr with
  | hole => simp [isHole] at present
  | literal span value => rw [walk]; rfl
  | read span name => rw [walk]; rfl
  | define span name value =>
    rw [walk]; funext state; simp only [children, walkAll]
  | binary span symbol left right =>
    rw [walk]; funext state; simp only [children, walkAll]
  | guarded span condition consequent =>
    rw [walk]; funext state; simp only [children, walkAll]
  | function span params body => rw [walk]; rfl
  | call span callee args =>
    rw [walk]; funext state; simp only [children, walkAll]

/-- Lists the nodes visited by a walk that stays outside the nodes that `skips` holds of. -/
def visits (skips : Expr → Bool) (exprs : List Expr) : List Expr :=
  (walkAll (fun expr seen => (expr :: seen, !skips expr)) exprs []).reverse

end Expr

def collectNames : Visitor (List String) := fun expr names =>
  match expr with
  | .define _ name _ => (name :: names, true)
  | _ => (names, true)

def Program.definedNames (program : Program) : List String :=
  Expr.walkAll collectNames program.statements []

end Sapling
