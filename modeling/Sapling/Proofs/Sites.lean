import Sapling.Proofs.Reports

/-!
# Places in a program

A place is a statement and a path down into it.  `Program.site?` gives the node at a place with the
names that are in sight when it is checked.  The check reports what it has to say of the node at
every place (`Program.check_site`); besides that it reports stale reads, and nothing else
(`Program.reports_own`).
-/

set_option autoImplicit false

namespace Sapling

/-- A place in a program: the index of a statement, and the indices of the children on the way down
to a node, last first. -/
structure NodePlace where
  statement : Nat
  path : List Nat
  deriving DecidableEq, Repr, Inhabited

def NodePlace.child (place : NodePlace) (index : Nat) : NodePlace :=
  { place with path := index :: place.path }

/-- A node and the names in sight of it. -/
structure Site where
  expr : Expr
  names : List String

namespace Site

def child? (site : Site) (index : Nat) : Option Site :=
  site.expr.children[index]?.map fun child => ⟨child, Check.inside site.expr site.names index⟩

def descend? (site : Site) : List Nat → Option Site
  | [] => some site
  | index :: path => (site.descend? path).bind (·.child? index)

theorem descend?_append (site : Site) (rest path : List Nat) :
    site.descend? (rest ++ path) = (site.descend? path).bind (·.descend? rest) := by
  induction rest with
  | nil => cases h : site.descend? path <;> simp [descend?, h]
  | cons index rest ih => rw [List.cons_append, descend?, ih, Option.bind_assoc]; rfl

theorem child?_eq_some {site inner : Site} {index : Nat} (found : site.child? index = some inner) :
    site.expr.children[index]? = some inner.expr ∧
      inner.names = Check.inside site.expr site.names index := by
  obtain ⟨child, isChild, rfl⟩ := Option.map_eq_some_iff.mp found
  exact ⟨isChild, rfl⟩

theorem descend?_hereditary {p : Expr → Prop} (hereditary : Hereditary p) {site inner : Site}
    (holds : p site.expr) {path : List Nat} (found : site.descend? path = some inner) :
    p inner.expr := by
  induction path generalizing inner with
  | nil =>
    obtain rfl : site = inner := Option.some.inj found
    exact holds
  | cons index path ih =>
    obtain ⟨parent, reached, isChild⟩ := Option.bind_eq_some_iff.mp found
    exact hereditary _ (ih reached) _ (List.mem_of_getElem? (child?_eq_some isChild).1)

theorem check_descend {defined : List String} {site inner : Site} {absent : Diagnostic}
    (isMissing : Check.IsMissing absent) :
    ∀ {path : List Nat}, site.descend? path = some inner →
      ∃ other, Check.IsMissing other ∧
        (Check.expr defined inner.expr other inner.names).diagnostics ⊆
          (Check.expr defined site.expr absent site.names).diagnostics := by
  intro path
  induction path generalizing inner with
  | nil =>
    intro found
    obtain rfl : site = inner := Option.some.inj found
    exact ⟨absent, isMissing, List.Subset.refl _⟩
  | cons index path ih =>
    intro found
    obtain ⟨parent, reached, isChild⟩ := Option.bind_eq_some_iff.mp found
    obtain ⟨other, _, parentSub⟩ := ih reached
    obtain ⟨isChild, names⟩ := child?_eq_some isChild
    obtain ⟨own, ownMissing, childSub⟩ := Check.check_child defined parent.names other isChild
    rw [names]
    exact ⟨own, ownMissing, List.Subset.trans childSub parentSub⟩

/-- What is reported of a node is reported of some node inside, or is a stale read. -/
theorem exists_own {defined : List String} {d : Diagnostic} (node : Expr) :
    ∀ {names : List String} {absent : Diagnostic}, Check.IsMissing absent →
      d ∈ (Check.expr defined node absent names).diagnostics →
      Check.IsStale d ∨
        ∃ path inner other, (⟨node, names⟩ : Site).descend? path = some inner ∧
          Check.IsMissing other ∧ d ∈ Check.own defined inner.expr other inner.names := by
  induction node using Expr.children_induction with
  | node node ih =>
    intro names absent isMissing member
    rcases Check.check_cases member with
      isOwn | isStale | ⟨index, child, other, found, missing, isIn⟩
    · exact .inr ⟨[], _, absent, rfl, isMissing, isOwn⟩
    · exact .inl isStale
    · rcases ih child (List.mem_of_getElem? found) missing isIn with isStale | inside
      · exact .inl isStale
      · obtain ⟨path, inner, least, reached, leastMissing, isOwn⟩ := inside
        refine .inr ⟨path ++ [index], inner, least, ?_, leastMissing, isOwn⟩
        rw [descend?_append]
        simp only [descend?, Option.bind_some, child?, found, Option.map_some]
        exact reached

end Site

namespace Program

def site? (program : Program) (place : NodePlace) : Option Site :=
  program.statements[place.statement]?.bind fun statement =>
    (⟨statement, Check.afterAll (program.statements.take place.statement) []⟩ : Site).descend?
      place.path

theorem site?_child {program : Program} {place : NodePlace} {site : Site}
    (found : program.site? place = some site) (index : Nat) :
    program.site? (place.child index) = site.child? index := by
  obtain ⟨statement, isStatement, reached⟩ := Option.bind_eq_some_iff.mp found
  rw [site?, NodePlace.child]
  simp only [isStatement, Option.bind_some, Site.descend?, reached]

theorem site?_hereditary {p : Expr → Prop} (hereditary : Hereditary p) {program : Program}
    (holds : ∀ statement ∈ program.statements, p statement) {place : NodePlace} {site : Site}
    (found : program.site? place = some site) : p site.expr := by
  obtain ⟨statement, isStatement, reached⟩ := Option.bind_eq_some_iff.mp found
  exact Site.descend?_hereditary hereditary (holds statement (List.mem_of_getElem? isStatement))
    reached

end Program

/-! ## What is reported of a program -/

namespace Check

theorem statements_site (defined : List String) {statements : List Expr} :
    ∀ (index : Nat) (names : List String) {position : Nat} {statement : Expr},
      statements[position]? = some statement →
      ∃ absent, IsMissing absent ∧
        (Check.expr defined statement absent
          (afterAll (statements.take position) names)).diagnostics ⊆
            Check.statements defined index statements names := by
  induction statements with
  | nil =>
    intro index names position statement found
    simp at found
  | cons first rest ih =>
    intro index names position statement found
    rw [Check.statements]
    cases position with
    | zero =>
      obtain rfl : first = statement := by simpa using found
      exact ⟨_, ⟨rfl, rfl⟩, List.subset_append_left _ _⟩
    | succ position =>
      obtain ⟨absent, isMissing, sub⟩ := ih (index + 1) (after first names) (by simpa using found)
      rw [expr_names]
      exact ⟨absent, isMissing, List.Subset.trans sub (List.subset_append_right _ _)⟩

theorem statements_cases {defined : List String} {d : Diagnostic} {statements : List Expr} :
    ∀ {index : Nat} {names : List String}, d ∈ Check.statements defined index statements names →
      ∃ position statement absent, statements[position]? = some statement ∧ IsMissing absent ∧
        d ∈ (Check.expr defined statement absent
          (afterAll (statements.take position) names)).diagnostics := by
  induction statements with
  | nil =>
    intro index names member
    simp [Check.statements] at member
  | cons first rest ih =>
    intro index names member
    rw [Check.statements] at member
    rw [expr_names] at member
    cases List.mem_append.mp member with
    | inl member => exact ⟨0, first, _, rfl, ⟨rfl, rfl⟩, member⟩
    | inr member =>
      obtain ⟨position, statement, absent, found, isMissing, isIn⟩ := ih member
      exact ⟨position + 1, statement, absent, found, isMissing, isIn⟩

end Check

namespace Program

/-- What the check reports of a program when `defined` are the names that any definition may
bind. -/
def reports (program : Program) (defined : List String) : List Diagnostic :=
  Check.statements defined 1 program.statements []

theorem checkProgram_eq_reports (program : Program) :
    checkProgram (some program) = program.reports program.definedNames := rfl

theorem check_site (defined : List String) {program : Program} {place : NodePlace} {site : Site}
    (found : program.site? place = some site) :
    ∃ absent, Check.IsMissing absent ∧
      (Check.expr defined site.expr absent site.names).diagnostics ⊆ program.reports defined := by
  obtain ⟨statement, isStatement, reached⟩ := Option.bind_eq_some_iff.mp found
  obtain ⟨absent, isMissing, outer⟩ := Check.statements_site defined 1 [] isStatement
  obtain ⟨other, otherMissing, inner⟩ := Site.check_descend isMissing reached
  exact ⟨other, otherMissing, List.Subset.trans inner outer⟩

theorem own_subset_reports (defined : List String) {program : Program} {place : NodePlace}
    {site : Site} (found : program.site? place = some site) :
    ∃ absent, Check.IsMissing absent ∧
      Check.own defined site.expr absent site.names ⊆ program.reports defined := by
  obtain ⟨absent, isMissing, reported⟩ := check_site defined found
  exact ⟨absent, isMissing, List.Subset.trans (Check.own_subset _ _ _ _) reported⟩

theorem reports_own {program : Program} {defined : List String} {d : Diagnostic}
    (member : d ∈ program.reports defined) :
    Check.IsStale d ∨
      ∃ place site absent, program.site? place = some site ∧ Check.IsMissing absent ∧
        d ∈ Check.own defined site.expr absent site.names := by
  obtain ⟨position, statement, absent, isStatement, isMissing, isIn⟩ :=
    Check.statements_cases member
  rcases Site.exists_own statement isMissing isIn with isStale | inside
  · exact .inl isStale
  · obtain ⟨path, site, other, reached, otherMissing, isOwn⟩ := inside
    refine .inr ⟨⟨position, path⟩, site, other, ?_, otherMissing, isOwn⟩
    rw [site?]
    simp only [isStatement, Option.bind_some]
    exact reached

end Program
end Sapling
