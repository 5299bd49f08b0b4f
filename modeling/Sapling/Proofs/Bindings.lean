import Sapling.Proofs.Closures
import Sapling.Proofs.Runs
import Sapling.Proofs.Simulation
import Sapling.Proofs.Trees

/-!
# The order of a scope

The names of a scope stand in order, each once, and a listing of it shows each with its value
(`Scope.Ordered.listing_eq`).  Binding a name keeps the order.  Evaluation changes a scope only by
binding the names that the expression defines outside its functions, so it keeps whatever such
bindings keep (`Expr.evaluate_keeps_scope`).
-/

set_option autoImplicit false

namespace Sapling

namespace Scope

/-- The names stand in order, each once. -/
def Ordered (scope : Scope) : Prop := scope.names.Pairwise (· < ·)

theorem empty_ordered : Scope.empty.Ordered := List.Pairwise.nil

theorem mem_names_iff {scope : Scope} {name : String} :
    name ∈ scope.names ↔ scope.has name = true := by
  induction scope with
  | nil => simp [names, has, find?]
  | cons binding rest ih =>
    obtain ⟨bound, value⟩ := binding
    simp only [names, has] at ih
    simp only [names, has, find?, List.map_cons, List.mem_cons]
    by_cases same : bound = name
    · simp [same]
    · simp only [same, if_false, ih, Ne.symm same, false_or]

theorem Ordered.bind {scope : Scope} (ordered : scope.Ordered) (name : String) (value : Value) :
    (scope.bind name value).Ordered := by
  induction scope with
  | nil => exact List.pairwise_singleton _ _
  | cons binding rest ih =>
    obtain ⟨bound, old⟩ := binding
    obtain ⟨first, others⟩ := List.pairwise_cons.mp ordered
    simp only [Scope.bind]
    split
    · rename_i less
      refine List.pairwise_cons.mpr ⟨List.forall_mem_cons.mpr ⟨less, ?_⟩, ordered⟩
      exact fun later isIn => String.lt_trans less (first later isIn)
    · rename_i notLess
      split
      · rename_i same
        exact List.pairwise_cons.mpr ⟨same ▸ first, others⟩
      · rename_i differs
        refine List.pairwise_cons.mpr ⟨fun later isIn => ?_, ih others⟩
        -- what comes after the first binding was there, or is the new name
        have known : (Scope.bind rest name value).has later = true := mem_names_iff.mp isIn
        rw [has_bind] at known
        rcases known with rfl | bound
        · exact Std.lt_of_le_of_ne (String.not_lt.mp notLess) (Ne.symm differs)
        · exact first later (mem_names_iff.mpr bound)

end Scope

/-! ## Evaluation binds names only -/

mutual

/-- The names that a tree defines, outside the functions it makes. -/
def Expr.defines : Expr → List String
  | .hole | .literal .. | .read .. | .function .. => []
  | .define _ name value => name :: value.defines
  | .binary _ _ left right => left.defines ++ right.defines
  | .guarded _ condition consequent => condition.defines ++ consequent.defines
  | .call _ callee args => callee.defines ++ definesAll args

def Expr.definesAll : List Expr → List String
  | [] => []
  | expr :: rest => expr.defines ++ definesAll rest

end

theorem Expr.defines_subset_definesAll {exprs : List Expr} {expr : Expr} (member : expr ∈ exprs) :
    expr.defines ⊆ definesAll exprs := by
  induction exprs with
  | nil => cases member
  | cons first rest ih =>
    rw [definesAll]
    rcases List.mem_cons.mp member with rfl | later
    · exact List.subset_append_left _ _
    · exact List.Subset.trans (ih later) (List.subset_append_right _ _)

theorem Expr.defines_child {expr child : Expr} (isOpen : expr.isFunction = false)
    (member : child ∈ expr.children) : child.defines ⊆ expr.defines := by
  cases expr with
  | hole => cases member
  | literal span value => cases member
  | read span name => cases member
  | function span params body => cases isOpen
  | define span name value =>
    obtain rfl := List.mem_singleton.mp member
    rw [defines]
    exact List.subset_cons_self _ _
  | binary span symbol left right =>
    simp only [children, List.mem_cons, List.not_mem_nil, or_false] at member
    rcases member with rfl | rfl <;> simp [defines]
  | guarded span condition consequent =>
    simp only [children, List.mem_cons, List.not_mem_nil, or_false] at member
    rcases member with rfl | rfl <;> simp [defines]
  | call span callee args =>
    rw [defines]
    rcases List.mem_cons.mp member with rfl | later
    · exact List.subset_append_left _ _
    · exact List.Subset.trans (defines_subset_definesAll later) (List.subset_append_right _ _)

section Keeps
variable {kept : Scope → Prop}

theorem Evaluated.andThen_keeps {first : Evaluated} (firstKept : kept first.scope)
    {next : Value → Scope → EvalState → Evaluated}
    (nextKept : ∀ value scope state, kept scope → kept (next value scope state).scope) :
    kept (first.andThen next).scope := by
  obtain ⟨outcome, scope, state⟩ := first
  cases outcome with
  | error error => exact firstKept
  | ok value => exact nextKept value scope state firstKept

theorem callTarget_scope (invoke : Invoke) (span : Option Span) (callee : Expr) (target : Value)
    (values : List Value) (scope : Scope) (state : EvalState) :
    (callTarget invoke span callee target values scope state).scope = scope := by
  cases target <;> rfl

theorem evalArgs_keeps_each {invoke : Invoke} {args : List Expr}
    (each : ∀ arg ∈ args, ∀ scope state,
      kept scope → kept (arg.evalWith invoke scope state).scope) :
    ∀ (scope : Scope) (state : EvalState) (next : List Value → Scope → EvalState → Evaluated),
      kept scope → (∀ values scope state, kept scope → kept (next values scope state).scope) →
      kept (withArgs (evalArgs invoke args scope state) next).scope := by
  induction args with
  | nil =>
    intro scope state next holds nextKept
    rw [evalArgs]
    exact nextKept [] scope state holds
  | cons arg rest ih =>
    intro scope state next holds nextKept
    obtain ⟨first, others⟩ := List.forall_mem_cons.mp each
    rw [withArgs_cons]
    refine Evaluated.andThen_keeps (first scope state holds) ?_
    exact fun value scope state holds =>
      ih others scope state _ holds fun values => nextKept (value :: values)

theorem Expr.evalWith_keeps_scope (invoke : Invoke) (expr : Expr) :
    (∀ name ∈ expr.defines, ∀ scope value, kept scope → kept (Scope.bind scope name value)) →
      ∀ scope state, kept scope → kept (expr.evalWith invoke scope state).scope := by
  induction expr using children_induction with
  | node expr ih =>
    intro binding scope state holds
    have below (isOpen : expr.isFunction = false) (child : Expr) (member : child ∈ expr.children) :=
      ih child member fun name isIn => binding name (defines_child isOpen member isIn)
    cases expr with
    | hole => rwa [evalWith]
    | literal span value => rwa [evalWith]
    | read span name => rwa [evalWith]
    | function span params body => rwa [evalWith]
    | define span name value =>
      rw [evalWith_define]
      refine Evaluated.andThen_keeps (below rfl value (by simp [children]) scope state holds) ?_
      exact fun result scope state holds => binding name (by simp [defines]) _ _ holds
    | binary span symbol left right =>
      rw [evalWith_binary]
      refine Evaluated.andThen_keeps (below rfl left (by simp [children]) scope state holds) ?_
      intro a scope state holds
      exact Evaluated.andThen_keeps (below rfl right (by simp [children]) scope state holds)
        fun b scope state holds => holds
    | guarded span condition consequent =>
      rw [evalWith_guarded]
      refine Evaluated.andThen_keeps (below rfl condition (by simp [children]) scope state holds) ?_
      intro test scope state holds
      split
      · exact below rfl consequent (by simp [children]) scope state holds
      · exact holds
    | call span callee args =>
      rw [evalWith_call]
      refine Evaluated.andThen_keeps (below rfl callee (by simp [children]) scope state holds) ?_
      intro target scope state holds
      split
      · exact holds
      · refine evalArgs_keeps_each (fun arg isIn => below rfl arg (by simp [children, isIn])) scope
          state _ holds fun values scope state holds => ?_
        rwa [callTarget_scope]

theorem Expr.evaluate_keeps_scope (settings : Settings) (expr : Expr)
    (binding : ∀ name ∈ expr.defines, ∀ scope value, kept scope →
      kept (Scope.bind scope name value))
    {scope : Scope} (state : EvalState) (holds : kept scope) :
    kept (expr.evaluate settings scope state).scope := by
  rw [evaluate_eq_eval, eval]
  exact evalWith_keeps_scope _ expr binding scope state holds

/-- What the bindings of its definitions keep, a program keeps. -/
theorem Program.execute_keeps_scope (settings : Settings) (program : Program)
    (binding : ∀ name ∈ Expr.definesAll program.statements, ∀ scope value, kept scope →
      kept (Scope.bind scope name value))
    {scope : Scope} (holds : kept scope) (nextId : Nat) :
    kept (program.execute settings scope nextId).scope := by
  have evaluated_keeps (index : Nat) (statement : Expr) (rest : List Expr) (scope : Scope)
      (state : EvalState)
      (binding : ∀ name ∈ Expr.definesAll (statement :: rest), ∀ scope value, kept scope →
        kept (Scope.bind scope name value))
      (holds : kept scope) :
      kept (statement.evaluate settings scope
        (state.openStatement settings index statement)).scope :=
    statement.evaluate_keeps_scope settings
      (fun name isIn => binding name (Expr.defines_subset_definesAll List.mem_cons_self isIn)) _
      holds
  refine executeFrom_induction settings
    (motive := fun statements _ scope _ execution =>
      (∀ name ∈ Expr.definesAll statements, ∀ scope value, kept scope →
        kept (Scope.bind scope name value)) → kept scope → kept execution.scope) ?_ ?_ ?_
    program.statements 0 scope _ binding holds
  · exact fun index scope state _ holds => holds
  · intro index statement rest scope state error after later evaluated binding holds
    have left := evaluated_keeps index statement rest scope state binding holds
    rwa [evaluated] at left
  · intro index statement rest scope state value after later others evaluated ih binding holds
    have left := evaluated_keeps index statement rest scope state binding holds
    rw [evaluated] at left
    refine ih (fun name isIn => binding name ?_) left
    rw [Expr.definesAll]
    exact List.mem_append_right _ isIn

end Keeps

end Sapling
