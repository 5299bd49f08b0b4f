import Sapling.Expr

/-!
# Trees and their children

The size of a tree, and induction from the children of a node to the node.  A tree whose nodes all
have a property is `Everywhere` so, and `mapSpans` changes where the nodes stand and nothing else.
-/

set_option autoImplicit false

namespace Sapling

mutual

def Expr.size : Expr → Nat
  | .hole | .literal .. | .read .. => 1
  | .define _ _ value => value.size + 1
  | .binary _ _ left right => left.size + right.size + 1
  | .guarded _ condition consequent => condition.size + consequent.size + 1
  | .function _ _ body => sizeAll body + 1
  | .call _ callee args => callee.size + sizeAll args + 1

def Expr.sizeAll : List Expr → Nat
  | [] => 0
  | expr :: rest => expr.size + sizeAll rest

end

theorem Expr.size_le_sizeAll {exprs : List Expr} {child : Expr} (member : child ∈ exprs) :
    child.size ≤ sizeAll exprs := by
  induction exprs with
  | nil => cases member
  | cons expr rest ih =>
    rw [sizeAll]
    rcases List.mem_cons.mp member with rfl | later
    · omega
    · have := ih later
      omega

theorem Expr.size_child {expr child : Expr} (member : child ∈ expr.children) :
    child.size < expr.size := by
  cases expr with
  | hole => cases member
  | literal span value => cases member
  | read span name => cases member
  | define span name value =>
    cases List.mem_singleton.mp member
    rw [size]
    omega
  | binary span symbol left right =>
    simp only [children, List.mem_cons, List.not_mem_nil, or_false] at member
    rcases member with rfl | rfl <;> rw [size] <;> omega
  | guarded span condition consequent =>
    simp only [children, List.mem_cons, List.not_mem_nil, or_false] at member
    rcases member with rfl | rfl <;> rw [size] <;> omega
  | function span params body =>
    have smaller := size_le_sizeAll member
    rw [size]
    exact Nat.lt_succ_of_le smaller
  | call span callee args =>
    rw [size]
    rcases List.mem_cons.mp member with rfl | later
    · omega
    · have smaller := size_le_sizeAll later
      omega

/-- What passes from the children of a node to the node holds of every tree. -/
theorem Expr.children_induction {motive : Expr → Prop}
    (node : ∀ expr, (∀ child ∈ Expr.children expr, motive child) → motive expr) (expr : Expr) :
    motive expr := by
  induction size : expr.size using Nat.strongRecOn generalizing expr with
  | ind bound ih =>
    refine node expr fun child member => ?_
    exact ih child.size (size ▸ size_child member) child rfl

mutual

/-- A property of every node of a tree. -/
def Expr.Everywhere (good : Expr → Prop) : Expr → Prop
  | .hole => good .hole
  | .literal span value => good (.literal span value)
  | .read span name => good (.read span name)
  | .define span name value => good (.define span name value) ∧ value.Everywhere good
  | .binary span symbol left right =>
    good (.binary span symbol left right) ∧ left.Everywhere good ∧ right.Everywhere good
  | .guarded span condition consequent =>
    good (.guarded span condition consequent) ∧ condition.Everywhere good ∧
      consequent.Everywhere good
  | .function span params body => good (.function span params body) ∧ everywhereAll good body
  | .call span callee args =>
    good (.call span callee args) ∧ callee.Everywhere good ∧ everywhereAll good args

def Expr.everywhereAll (good : Expr → Prop) : List Expr → Prop
  | [] => True
  | expr :: rest => expr.Everywhere good ∧ everywhereAll good rest

end

theorem Expr.everywhereAll_iff {good : Expr → Prop} {exprs : List Expr} :
    everywhereAll good exprs ↔ ∀ expr ∈ exprs, expr.Everywhere good := by
  induction exprs with
  | nil => simp [everywhereAll]
  | cons expr rest ih => simp [everywhereAll, ih]

theorem Expr.everywhere_iff {good : Expr → Prop} {expr : Expr} :
    expr.Everywhere good ↔ good expr ∧ ∀ child ∈ expr.children, child.Everywhere good := by
  cases expr <;> simp [Everywhere, children, everywhereAll_iff]

theorem Expr.Everywhere.imp {good better : Expr → Prop} (weaker : ∀ expr, better expr → good expr)
    {expr : Expr} (all : expr.Everywhere better) : expr.Everywhere good := by
  induction expr using children_induction with
  | node expr ih =>
    obtain ⟨here, below⟩ := everywhere_iff.mp all
    exact everywhere_iff.mpr
      ⟨weaker expr here, fun child member => ih child member (below child member)⟩

/-- A property of trees that passes to the children. -/
def Hereditary (p : Expr → Prop) : Prop :=
  ∀ expr, p expr → ∀ child ∈ expr.children, p child

theorem Expr.everywhere_hereditary (good : Expr → Prop) : Hereditary (Expr.Everywhere good) :=
  fun _ all => (everywhere_iff.mp all).2

mutual

def Expr.mapSpans (f : Span → Span) : Expr → Expr
  | .hole => .hole
  | .literal span value => .literal (f span) value
  | .read span name => .read (f span) name
  | .define span name value => .define (f span) name (value.mapSpans f)
  | .binary span symbol left right => .binary (f span) symbol (left.mapSpans f) (right.mapSpans f)
  | .guarded span condition consequent =>
    .guarded (f span) (condition.mapSpans f) (consequent.mapSpans f)
  | .function span params body => .function (f span) params (mapSpansAll f body)
  | .call span callee args => .call (f span) (callee.mapSpans f) (mapSpansAll f args)

def Expr.mapSpansAll (f : Span → Span) : List Expr → List Expr
  | [] => []
  | expr :: rest => expr.mapSpans f :: mapSpansAll f rest

end

theorem Expr.mapSpansAll_eq_map (f : Span → Span) (exprs : List Expr) :
    mapSpansAll f exprs = exprs.map (mapSpans f) := by
  induction exprs with
  | nil => rfl
  | cons expr rest ih => rw [mapSpansAll, List.map_cons, ih]

def Expr.bare (expr : Expr) : Expr := expr.mapSpans fun _ => Span.zero

theorem Expr.bare_function (span : Span) (params : List String) (body : List Expr) :
    (function span params body).bare = function Span.zero params (body.map bare) := by
  rw [bare, mapSpans, mapSpansAll_eq_map]
  rfl

theorem Expr.bare_call (span : Span) (callee : Expr) (args : List Expr) :
    (call span callee args).bare = call Span.zero callee.bare (args.map bare) := by
  rw [bare, mapSpans, mapSpansAll_eq_map]
  rfl

theorem Expr.mapSpans_eq_self {f : Span → Span} (expr : Expr)
    (fixed : expr.Everywhere fun node => f node.span = node.span) : expr.mapSpans f = expr := by
  induction expr using children_induction with
  | node expr ih =>
    obtain ⟨here, below⟩ := everywhere_iff.mp fixed
    replace ih := fun child member => ih child member (below child member)
    have all : ∀ exprs : List Expr, (∀ child ∈ exprs, child.mapSpans f = child) →
        mapSpansAll f exprs = exprs := by
      intro exprs each
      rw [mapSpansAll_eq_map, List.map_congr_left each, List.map_id']
    cases expr with
    | hole => rfl
    | literal span value => exact congrArg (literal · value) here
    | read span name => exact congrArg (read · name) here
    | define span name value =>
      rw [mapSpans, ih value (by simp [children])]
      exact congrArg (define · name value) here
    | binary span symbol left right =>
      rw [mapSpans, ih left (by simp [children]), ih right (by simp [children])]
      exact congrArg (binary · symbol left right) here
    | guarded span condition consequent =>
      rw [mapSpans, ih condition (by simp [children]), ih consequent (by simp [children])]
      exact congrArg (guarded · condition consequent) here
    | function span params body =>
      rw [mapSpans, all body ih]
      exact congrArg (function · params body) here
    | call span callee args =>
      rw [mapSpans, ih callee (by simp [children]),
        all args fun arg member => ih arg (by simp [children, member])]
      exact congrArg (call · callee args) here

end Sapling
