import Sapling.Check
import Sapling.Proofs.Trees

/-!
# What is reported of a node and of its children

The names in sight after a node, and of each child inside it, do not depend on what is reported
(`Check.expr_names`).  With them the check of a node falls apart: what is reported of a child is
reported of the node (`Check.check_child`), and besides that and reads of stale names there are only
the diagnostics of the node itself (`Check.own_subset`, `Check.check_cases`).
-/

set_option autoImplicit false

namespace Sapling

theorem Code.text_inj {code other : Code} (same : code.text = other.text) : code = other := by
  revert same
  cases code <;> cases other <;> decide

namespace Check

/-! ## Names in sight -/

def after (node : Expr) (names : List String) : List String :=
  (Check.expr [] node default names).names

def afterAll : List Expr → List String → List String
  | [], names => names
  | node :: rest, names => afterAll rest (after node names)

/-- The names in sight of a child, by its index. -/
def inside (node : Expr) (names : List String) (index : Nat) : List String :=
  match node with
  | .define _ name value =>
    match value with
    | .function .. => name :: names
    | _ => names
  | .function _ params _ => params.filter (· ≠ "") ++ names
  | _ => afterAll (node.children.take index) names

theorem arguments_names {defined : List String} (parent : Expr) (args : List Expr)
    (each : ∀ arg ∈ args, ∀ absent names,
      (Check.expr defined arg absent names).names = after arg names) :
    ∀ index names, (arguments defined parent index args names).names = afterAll args names := by
  induction args with
  | nil =>
    intro index names
    rw [arguments, afterAll]
  | cons arg rest ih =>
    intro index names
    obtain ⟨first, others⟩ := List.forall_mem_cons.mp each
    rw [arguments, afterAll]
    dsimp only
    rw [first, ih others]

theorem expr_names (node : Expr) : ∀ defined absent names,
    (Check.expr defined node absent names).names = after node names := by
  induction node using Expr.children_induction with
  | node node ih =>
    intro defined absent names
    unfold after
    cases node with
    | hole => rw [expr_hole, expr_hole]
    | literal span value => simp only [Check.expr]
    | read span name =>
      simp only [Check.expr]
      split
      · rfl
      · split <;> split <;> rfl
    | define span name value =>
      have valueNames := ih value (by simp [Expr.children])
      simp only [Check.expr, valueNames]
    | binary span symbol left right =>
      have leftNames := ih left (by simp [Expr.children])
      have rightNames := ih right (by simp [Expr.children])
      simp only [Check.expr, leftNames, rightNames]
    | guarded span condition consequent =>
      have conditionNames := ih condition (by simp [Expr.children])
      have consequentNames := ih consequent (by simp [Expr.children])
      simp only [Check.expr, conditionNames, consequentNames]
    | function span params body => simp only [Check.expr]
    | call span callee args =>
      have calleeNames := ih callee (by simp [Expr.children])
      have argsNames : ∀ arg ∈ args, ∀ defined absent names,
          (Check.expr defined arg absent names).names = after arg names :=
        fun arg member => ih arg (by simp [Expr.children, member])
      simp only [Check.expr, calleeNames]
      rw [arguments_names _ _ fun arg member => argsNames arg member defined,
        arguments_names _ _ fun arg member => argsNames arg member []]

theorem expr_define (defined : List String) (span : Span) (name : String) (value : Expr)
    (absent : Diagnostic) (names : List String) :
    Check.expr defined (.define span name value) absent names =
      let checked := Check.expr defined value (missing (.define span name value) "value")
        (inside (.define span name value) names 0)
      ⟨(if name = "" then [emptyName span] else []) ++ checked.diagnostics,
        name :: checked.names⟩ := by
  cases value <;> rfl

theorem subset_inside_define (span : Span) (name : String) (value : Expr) (names : List String) :
    names ⊆ inside (.define span name value) names 0 := by
  cases value with
  | function place params body => exact List.subset_cons_self _ _
  | _ => exact List.Subset.refl _

section After
variable (span : Span) (names : List String)

@[simp] theorem after_hole : after .hole names = names := by
  rw [after, expr_hole]

@[simp] theorem after_literal (value : Float) : after (.literal span value) names = names := by
  simp only [after, Check.expr]

@[simp] theorem after_read (name : String) : after (.read span name) names = names := by
  simp only [after, Check.expr]
  split
  · rfl
  · split <;> rfl

@[simp] theorem after_function (params : List String) (body : List Expr) :
    after (.function span params body) names = names := by
  simp only [after, Check.expr]

theorem after_define (name : String) (value : Expr) :
    after (.define span name value) names =
      name :: after value (inside (.define span name value) names 0) := by
  rw [after, expr_define]
  exact congrArg (name :: ·) (expr_names value _ _ _)

theorem after_binary (symbol : String) (left right : Expr) :
    after (.binary span symbol left right) names = after right (after left names) := by
  rw [after, Check.expr]
  simp only [expr_names]

theorem after_guarded (condition consequent : Expr) :
    after (.guarded span condition consequent) names =
      after consequent (after condition names) := by
  rw [after, Check.expr]
  simp only [expr_names]

theorem after_call (callee : Expr) (args : List Expr) :
    after (.call span callee args) names = afterAll args (after callee names) := by
  rw [after, Check.expr]
  simp only [expr_names]
  exact arguments_names _ _ (fun arg _ absent names => expr_names arg _ _ _) _ _

end After

theorem afterAll_append (first second : List Expr) (names : List String) :
    afterAll (first ++ second) names = afterAll second (afterAll first names) := by
  induction first generalizing names with
  | nil => rfl
  | cons node rest ih => exact ih (after node names)

theorem subset_afterAll {nodes : List Expr}
    (each : ∀ node ∈ nodes, ∀ names, names ⊆ after node names) :
    ∀ names, names ⊆ afterAll nodes names := by
  induction nodes with
  | nil =>
    intro names
    exact List.Subset.refl names
  | cons node rest ih =>
    intro names
    obtain ⟨first, others⟩ := List.forall_mem_cons.mp each
    exact List.Subset.trans (first names) (ih others (after node names))

theorem subset_after (node : Expr) : ∀ names, names ⊆ after node names := by
  induction node using Expr.children_induction with
  | node node ih =>
    intro names
    cases node with
    | hole => simp
    | literal span value => simp
    | read span name => simp
    | function span params body => simp
    | define span name value =>
      have valueSubset := ih value (by simp [Expr.children])
      rw [after_define]
      refine List.Subset.trans ?_ (List.subset_cons_self _ _)
      exact List.Subset.trans (subset_inside_define span name value names) (valueSubset _)
    | binary span symbol left right =>
      rw [after_binary]
      exact List.Subset.trans (ih left (by simp [Expr.children]) names)
        (ih right (by simp [Expr.children]) _)
    | guarded span condition consequent =>
      rw [after_guarded]
      exact List.Subset.trans (ih condition (by simp [Expr.children]) names)
        (ih consequent (by simp [Expr.children]) _)
    | call span callee args =>
      rw [after_call]
      refine List.Subset.trans (ih callee (by simp [Expr.children]) names) ?_
      exact subset_afterAll (fun arg member => ih arg (by simp [Expr.children, member])) _

/-! ## What is reported of the children -/

def IsMissing (d : Diagnostic) : Prop := d.code = Code.ast.text ∧ d.isError = true

theorem missing_isMissing (parent : Expr) (role : String) : IsMissing (missing parent role) :=
  ⟨rfl, rfl⟩

theorem arguments_child (defined : List String) (parent : Expr) {args : List Expr} :
    ∀ {index position : Nat} {arg : Expr} {names : List String}, args[position]? = some arg →
      ∃ absent, IsMissing absent ∧
        (Check.expr defined arg absent (afterAll (args.take position) names)).diagnostics ⊆
          (arguments defined parent index args names).diagnostics := by
  induction args with
  | nil =>
    intro index position arg names found
    simp at found
  | cons first rest ih =>
    intro index position arg names found
    rw [arguments]
    dsimp only
    cases position with
    | zero =>
      obtain rfl : first = arg := by simpa using found
      exact ⟨_, missing_isMissing _ _, List.subset_append_left _ _⟩
    | succ position =>
      obtain ⟨absent, isMissing, sub⟩ := ih (by simpa using found)
      rw [expr_names]
      exact ⟨absent, isMissing, List.Subset.trans sub (List.subset_append_right _ _)⟩

theorem bodies_child (defined : List String) (parent : Expr) (names params : List String)
    {body : List Expr} :
    ∀ {index position : Nat} {stale : List String} {inner : Expr}, body[position]? = some inner →
      ∃ absent, IsMissing absent ∧
        (Check.expr defined inner absent (params ++ names)).diagnostics ⊆
          bodies defined parent names params index stale body := by
  induction body with
  | nil =>
    intro index position stale inner found
    simp at found
  | cons first rest ih =>
    intro index position stale inner found
    rw [bodies]
    cases position with
    | zero =>
      obtain rfl : first = inner := by simpa using found
      exact ⟨_, missing_isMissing _ _,
        List.Subset.trans (List.subset_append_right _ _) (List.subset_append_left _ _)⟩
    | succ position =>
      obtain ⟨absent, isMissing, sub⟩ := ih (by simpa using found)
      exact ⟨absent, isMissing, List.Subset.trans sub (List.subset_append_right _ _)⟩

/-- What is reported of a child, where the names inside its parent are in sight, is reported of the
parent. -/
theorem check_child (defined names : List String) {node child : Expr} (absent : Diagnostic)
    {index : Nat} (found : node.children[index]? = some child) :
    ∃ inner, IsMissing inner ∧
      (Check.expr defined child inner (inside node names index)).diagnostics ⊆
        (Check.expr defined node absent names).diagnostics := by
  cases node with
  | hole => simp [Expr.children] at found
  | literal span value => simp [Expr.children] at found
  | read span name => simp [Expr.children] at found
  | define span name value =>
    cases index with
    | zero =>
      obtain rfl : value = child := by simpa [Expr.children] using found
      rw [expr_define]
      exact ⟨_, missing_isMissing _ _, List.subset_append_right _ _⟩
    | succ index => simp [Expr.children] at found
  | binary span symbol left right =>
    rw [Check.expr]
    dsimp only
    cases index with
    | zero =>
      obtain rfl : left = child := by simpa [Expr.children] using found
      exact ⟨_, missing_isMissing _ _,
        List.Subset.trans (List.subset_append_right _ _) (List.subset_append_left _ _)⟩
    | succ index =>
      cases index with
      | zero =>
        obtain rfl : right = child := by simpa [Expr.children] using found
        rw [expr_names]
        exact ⟨_, missing_isMissing _ _, List.subset_append_right _ _⟩
      | succ index => simp [Expr.children] at found
  | guarded span condition consequent =>
    rw [Check.expr]
    dsimp only
    cases index with
    | zero =>
      obtain rfl : condition = child := by simpa [Expr.children] using found
      exact ⟨_, missing_isMissing _ _, List.subset_append_left _ _⟩
    | succ index =>
      cases index with
      | zero =>
        obtain rfl : consequent = child := by simpa [Expr.children] using found
        rw [expr_names]
        exact ⟨_, missing_isMissing _ _, List.subset_append_right _ _⟩
      | succ index => simp [Expr.children] at found
  | function span params body =>
    have found : body[index]? = some child := found
    have nonempty : body.isEmpty = false := by
      cases body with
      | nil => simp at found
      | cons first rest => rfl
    rw [Check.expr]
    simp only [nonempty, Bool.false_eq_true, if_false]
    obtain ⟨inner, isMissing, sub⟩ := bodies_child defined _ _ _ found
    exact ⟨inner, isMissing, List.Subset.trans sub (List.subset_append_right _ _)⟩
  | call span callee args =>
    rw [Check.expr]
    dsimp only
    cases index with
    | zero =>
      obtain rfl : callee = child := by simpa [Expr.children] using found
      exact ⟨_, missing_isMissing _ _, List.subset_append_left _ _⟩
    | succ index =>
      have found : args[index]? = some child := by simpa [Expr.children] using found
      obtain ⟨inner, isMissing, sub⟩ := arguments_child defined _ found
      rw [expr_names]
      exact ⟨inner, isMissing, List.Subset.trans sub (List.subset_append_right _ _)⟩

/-! ## What is reported of a node itself -/

/-- What is reported of a node and of none of its children, reads of stale names apart. -/
def own (defined : List String) (node : Expr) (absent : Diagnostic) (names : List String) :
    List Diagnostic :=
  match node with
  | .hole => [absent]
  | .read span name =>
    if name = "" then [emptyName span]
    else if name ∈ names ∨ name ∈ defined then []
    else [neverBound span name]
  | .define span name _ => if name = "" then [emptyName span] else []
  | .binary span symbol _ _ =>
    if (Operator.ofSymbol? symbol).isNone then [unknownOperator span symbol] else []
  | .function span params body =>
    Check.params span [] params ++ if body.isEmpty then [noBody span] else []
  | .literal .. | .guarded .. | .call .. => []

theorem expr_read_diagnostics (defined : List String) (span : Span) (name : String)
    (absent : Diagnostic) (names : List String) :
    (Check.expr defined (.read span name) absent names).diagnostics =
      own defined (.read span name) absent names := by
  simp only [own, Check.expr]
  split
  · rfl
  · split <;> rfl

theorem own_subset (defined : List String) (node : Expr) (absent : Diagnostic)
    (names : List String) :
    own defined node absent names ⊆ (Check.expr defined node absent names).diagnostics := by
  cases node with
  | hole => simp [own, Check.expr]
  | literal span value => simp [own]
  | read span name =>
    rw [expr_read_diagnostics]
    exact List.Subset.refl _
  | define span name value =>
    rw [expr_define]
    exact List.subset_append_left _ _
  | binary span symbol left right =>
    rw [Check.expr]
    exact List.Subset.trans (List.subset_append_left _ _) (List.subset_append_left _ _)
  | guarded span condition consequent => simp [own]
  | function span params body =>
    cases body with
    | nil => simp [own, Check.expr]
    | cons first rest => simp [own, Check.expr]
  | call span callee args => simp [own]

def IsStale (d : Diagnostic) : Prop := ∃ span name captured, d = staleRead span name captured

theorem IsStale.code {d : Diagnostic} (stale : IsStale d) : d.code = Code.bodyScope.text := by
  obtain ⟨span, name, captured, rfl⟩ := stale
  rfl

theorem staleReadsAll_isStale {d : Diagnostic} {captured : List String} {nodes : List Expr}
    (each : ∀ node ∈ nodes, ∀ stale, d ∈ staleReads stale captured node → IsStale d) :
    ∀ {stale}, d ∈ staleReadsAll stale captured nodes → IsStale d := by
  induction nodes with
  | nil =>
    intro stale member
    simp [staleReadsAll] at member
  | cons node rest ih =>
    intro stale member
    obtain ⟨first, others⟩ := List.forall_mem_cons.mp each
    rw [staleReadsAll] at member
    cases List.mem_append.mp member with
    | inl member => exact first stale member
    | inr member => exact ih others member

theorem staleReads_isStale {d : Diagnostic} {captured : List String} (node : Expr) :
    ∀ stale, d ∈ staleReads stale captured node → IsStale d := by
  induction node using Expr.children_induction with
  | node node ih =>
    intro stale member
    cases node with
    | hole => simp [staleReads] at member
    | literal span value => simp [staleReads] at member
    | read span name =>
      simp only [staleReads] at member
      split at member
      · exact ⟨span, name, _, List.mem_singleton.mp member⟩
      · simp at member
    | define span name value =>
      rw [staleReads] at member
      exact ih value (by simp [Expr.children]) stale member
    | binary span symbol left right =>
      rw [staleReads] at member
      cases List.mem_append.mp member with
      | inl member => exact ih left (by simp [Expr.children]) stale member
      | inr member => exact ih right (by simp [Expr.children]) stale member
    | guarded span condition consequent =>
      rw [staleReads] at member
      cases List.mem_append.mp member with
      | inl member => exact ih condition (by simp [Expr.children]) stale member
      | inr member => exact ih consequent (by simp [Expr.children]) stale member
    | function span params body =>
      rw [staleReads] at member
      exact staleReadsAll_isStale (fun inner isIn => ih inner isIn) member
    | call span callee args =>
      rw [staleReads] at member
      cases List.mem_append.mp member with
      | inl member => exact ih callee (by simp [Expr.children]) stale member
      | inr member =>
        exact staleReadsAll_isStale (fun arg isIn => ih arg (by simp [Expr.children, isIn])) member

def FromChild (defined : List String) (node : Expr) (names : List String) (d : Diagnostic) : Prop :=
  ∃ index child absent, node.children[index]? = some child ∧ IsMissing absent ∧
    d ∈ (Check.expr defined child absent (inside node names index)).diagnostics

theorem arguments_cases {defined : List String} {parent : Expr} {d : Diagnostic}
    {args : List Expr} :
    ∀ {index : Nat} {names : List String},
      d ∈ (arguments defined parent index args names).diagnostics →
      ∃ position arg absent, args[position]? = some arg ∧ IsMissing absent ∧
        d ∈ (Check.expr defined arg absent (afterAll (args.take position) names)).diagnostics := by
  induction args with
  | nil =>
    intro index names member
    simp [arguments] at member
  | cons first rest ih =>
    intro index names member
    rw [arguments] at member
    dsimp only at member
    rw [expr_names] at member
    cases List.mem_append.mp member with
    | inl member => exact ⟨0, first, _, rfl, missing_isMissing _ _, member⟩
    | inr member =>
      obtain ⟨position, arg, absent, found, isMissing, member⟩ := ih member
      exact ⟨position + 1, arg, absent, found, isMissing, member⟩

theorem bodies_cases {defined : List String} {parent : Expr} {names params : List String}
    {d : Diagnostic} {body : List Expr} :
    ∀ {index : Nat} {stale : List String}, d ∈ bodies defined parent names params index stale body →
      IsStale d ∨
        ∃ (position : Nat) (inner : Expr) (absent : Diagnostic),
          body[position]? = some inner ∧ IsMissing absent ∧
            d ∈ (Check.expr defined inner absent (params ++ names)).diagnostics := by
  induction body with
  | nil =>
    intro index stale member
    simp [bodies] at member
  | cons first rest ih =>
    intro index stale member
    rw [bodies] at member
    simp only [List.mem_append] at member
    rcases member with (member | member) | member
    · exact .inl (staleReads_isStale first stale member)
    · exact .inr ⟨0, first, _, rfl, missing_isMissing _ _, member⟩
    · rcases ih member with isStale | ⟨position, inner, absent, found, isMissing, member⟩
      · exact .inl isStale
      · exact .inr ⟨position + 1, inner, absent, found, isMissing, member⟩

/-- What is reported of a node is reported of itself, of a child, or is a stale read. -/
theorem check_cases {defined names : List String} {node : Expr} {absent d : Diagnostic}
    (member : d ∈ (Check.expr defined node absent names).diagnostics) :
    d ∈ own defined node absent names ∨ IsStale d ∨
      FromChild defined node names d := by
  cases node with
  | hole => exact .inl (by simpa only [own, Check.expr] using member)
  | literal span value => simp [Check.expr] at member
  | read span name =>
    rw [expr_read_diagnostics] at member
    exact .inl member
  | define span name value =>
    rw [expr_define] at member
    cases List.mem_append.mp member with
    | inl member => exact .inl member
    | inr member => exact .inr (.inr ⟨0, value, _, rfl, missing_isMissing _ _, member⟩)
  | binary span symbol left right =>
    rw [Check.expr] at member
    simp only [expr_names, List.mem_append] at member
    rcases member with (member | member) | member
    · exact .inl member
    · exact .inr (.inr ⟨0, left, _, rfl, missing_isMissing _ _, member⟩)
    · exact .inr (.inr ⟨1, right, _, rfl, missing_isMissing _ _, member⟩)
  | guarded span condition consequent =>
    rw [Check.expr] at member
    simp only [expr_names, List.mem_append] at member
    rcases member with member | member
    · exact .inr (.inr ⟨0, condition, _, rfl, missing_isMissing _ _, member⟩)
    · exact .inr (.inr ⟨1, consequent, _, rfl, missing_isMissing _ _, member⟩)
  | function span params body =>
    cases body with
    | nil =>
      left
      simpa only [own, Check.expr, List.isEmpty_nil, if_true] using member
    | cons first rest =>
      rw [Check.expr] at member
      simp only [List.isEmpty_cons, Bool.false_eq_true, if_false, List.mem_append] at member
      rcases member with member | member
      · exact .inl (List.mem_append_left _ member)
      · rcases bodies_cases member with
          isStale | ⟨position, inner, absent, found, isMissing, member⟩
        · exact .inr (.inl isStale)
        · exact .inr (.inr ⟨position, inner, absent, found, isMissing, member⟩)
  | call span callee args =>
    rw [Check.expr] at member
    simp only [expr_names, List.mem_append] at member
    rcases member with member | member
    · exact .inr (.inr ⟨0, callee, _, rfl, missing_isMissing _ _, member⟩)
    · obtain ⟨position, arg, absent, found, isMissing, member⟩ := arguments_cases member
      exact .inr (.inr ⟨position + 1, arg, absent, found, isMissing, member⟩)

/-! ## Parameters -/

theorem params_eq_nil_iff {span : Span} {params : List String} : ∀ {earlier : List String},
    Check.params span earlier params = [] ↔
      "" ∉ params ∧ params.Nodup ∧ ∀ param ∈ params, param ∉ earlier := by
  induction params with
  | nil => simp [Check.params]
  | cons param rest ih =>
    intro earlier
    rw [Check.params]
    by_cases unnamed : param = ""
    · simp [unnamed]
    by_cases repeated : param ∈ earlier
    · simp [unnamed, repeated]
    · simp only [unnamed, repeated, if_false, ih, List.mem_cons, List.nodup_cons]
      grind

theorem params_isError {span : Span} {d : Diagnostic} {params : List String} :
    ∀ {earlier : List String}, d ∈ Check.params span earlier params → d.isError = true := by
  induction params with
  | nil => simp [Check.params]
  | cons param rest ih =>
    intro earlier member
    rw [Check.params] at member
    split at member
    · exact (List.mem_cons.mp member).elim (fun same => same ▸ rfl) ih
    · split at member
      · exact (List.mem_cons.mp member).elim (fun same => same ▸ rfl) ih
      · exact ih member

theorem params_code {span : Span} {d : Diagnostic} {params : List String} :
    ∀ {earlier : List String}, d ∈ Check.params span earlier params →
      d.code = Code.ast.text ∨ d.code = Code.duplicateParam.text := by
  induction params with
  | nil =>
    intro earlier member
    simp [Check.params] at member
  | cons param rest ih =>
    intro earlier member
    rw [Check.params] at member
    split at member
    · rcases List.mem_cons.mp member with rfl | later
      · exact .inl rfl
      · exact ih later
    · split at member
      · rcases List.mem_cons.mp member with rfl | later
        · exact .inr rfl
        · exact ih later
      · exact ih member

/-! ## Reads of names that are never bound -/

theorem neverBound_inj {span place : Span} {name other : String}
    (same : neverBound span name = neverBound place other) : span = place ∧ name = other := by
  simp only [neverBound, Diagnostic.warning, Diagnostic.mk.injEq, Option.some.injEq] at same
  exact ⟨same.2.2.1, by simpa using same.2.1⟩

theorem neverBound_mem_own {defined names : List String} {node : Expr} {absent : Diagnostic}
    {span : Span} {name : String} (isMissing : IsMissing absent)
    (member : neverBound span name ∈ own defined node absent names) :
    node = .read span name ∧ name ≠ "" ∧ name ∉ names ∧ name ∉ defined := by
  have differs (d : Diagnostic) (code : Code) (isCode : d.code = code.text)
      (different : Code.undefined ≠ code) : neverBound span name ≠ d := fun same =>
    different (Code.text_inj ((congrArg Diagnostic.code same).trans isCode))
  cases node with
  | hole => exact absurd (List.mem_singleton.mp member) (differs absent .ast isMissing.1 nofun)
  | literal place value => simp [own] at member
  | read place other =>
    simp only [own] at member
    split at member
    · exact absurd (List.mem_singleton.mp member) (differs _ .ast rfl nofun)
    · rename_i nonempty
      split at member
      · simp at member
      · rename_i unseen
        obtain ⟨rfl, rfl⟩ := neverBound_inj (List.mem_singleton.mp member)
        exact ⟨rfl, nonempty, fun seen => unseen (.inl seen), fun seen => unseen (.inr seen)⟩
  | define place other value =>
    simp only [own] at member
    split at member
    · exact absurd (List.mem_singleton.mp member) (differs _ .ast rfl nofun)
    · simp at member
  | binary place symbol left right =>
    simp only [own] at member
    split at member
    · exact absurd (List.mem_singleton.mp member) (differs _ .ast rfl nofun)
    · simp at member
  | guarded place condition consequent => simp [own] at member
  | function place params body =>
    rcases List.mem_append.mp member with ofParams | ofBody
    · rcases params_code ofParams with code | code
      · exact absurd rfl (differs _ .ast code nofun)
      · exact absurd rfl (differs _ .duplicateParam code nofun)
    · split at ofBody
      · exact absurd (List.mem_singleton.mp ofBody) (differs _ .emptyBody rfl nofun)
      · simp at ofBody
  | call place callee args => simp [own] at member

end Check
end Sapling
