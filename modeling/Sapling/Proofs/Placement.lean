import Sapling.Proofs.Closures
import Sapling.Proofs.Trails

/-!
# Functions and frames in their places

What evaluation keeps around between two steps, seen from the check.  A function was made by a
function node that has in sight all that the function captured (`Closure.PlacedAt`), so the
expressions of its body see all that a call binds (`Closure.PlacedAt.body`).  A list of frames goes
on only where the check expects the names that may be bound by then (`Resumes`).
-/

set_option autoImplicit false

namespace Sapling

/-- The names bound in the scope are among the names in sight.  Only a parameter without a name can
bind the empty name and not bring it into sight. -/
def Sees (names : List String) (scope : Scope) : Prop :=
  ∀ name, name ≠ "" → scope.has name = true → name ∈ names

theorem Sees.mono {names more : List String} {scope : Scope} (sub : names ⊆ more)
    (sees : Sees names scope) : Sees more scope :=
  fun name nonempty bound => sub (sees name nonempty bound)

theorem Sees.bind {names : List String} {scope : Scope} (sees : Sees names scope) (name : String)
    (value : Value) : Sees (name :: names) (scope.bind name value) := by
  intro other nonempty bound
  rcases Scope.has_bind.mp bound with same | old
  · exact same ▸ List.mem_cons_self
  · exact List.mem_cons_of_mem _ (sees other nonempty old)

theorem sees_empty : Sees [] Scope.empty := by
  intro name nonempty bound
  cases bound

/-! ## Functions and the nodes that made them -/

/-- The function could have been made by the node at this place. -/
def Closure.PlacedAt (program : Program) (closure : Closure) (place : NodePlace) : Prop :=
  ∃ span names, program.site? place = some ⟨.function span closure.params closure.body, names⟩ ∧
    Sees names closure.snapshot ∧ (closure.name ≠ "" → closure.name ∈ names)

def Closure.Placed (program : Program) (made : Origins) (closure : Closure) : Prop :=
  ∃ place, made closure.id = some place ∧ closure.PlacedAt program place

abbrev Value.Placed (program : Program) (made : Origins) (value : Value) : Prop :=
  value.Each (Closure.Placed program made)

abbrev Scope.Placed (program : Program) (made : Origins) (scope : Scope) : Prop :=
  scope.Each (Closure.Placed program made)

def Unmade (made : Origins) (nextId : Nat) : Prop := ∀ id, nextId ≤ id → made id = none

def Extends (made later : Origins) : Prop :=
  ∀ id place, made id = some place → later id = some place

theorem Closure.Placed.mono {program : Program} {made later : Origins}
    (extended : Extends made later) (closure : Closure) (placed : closure.Placed program made) :
    closure.Placed program later := by
  obtain ⟨place, recorded, placedAt⟩ := placed
  exact ⟨place, extended _ _ recorded, placedAt⟩

theorem Closure.PlacedAt.body {program : Program} {closure : Closure} {place : NodePlace}
    (placed : closure.PlacedAt program place) {index : Nat} {expr : Expr}
    (found : closure.body[index]? = some expr) :
    ∃ names, program.site? (place.child index) = some ⟨expr, names⟩ ∧
      ∀ args, Sees names (closure.callScope args) := by
  obtain ⟨span, names, site, sees, named⟩ := placed
  refine ⟨closure.params.filter (· ≠ "") ++ names, ?_, ?_⟩
  · rw [Program.site?_child site]
    simp only [Site.child?, Expr.children, found, Option.map_some, Check.inside]
  · intro args name nonempty bound
    rcases Closure.has_callScope bound with param | ⟨own, _⟩ | captured
    · exact List.mem_append_left _ (List.mem_filter.mpr ⟨param, by simpa using nonempty⟩)
    · subst own
      exact List.mem_append_right _ (named nonempty)
    · exact List.mem_append_right _ (sees name nonempty captured)

/-! ## Frames and the names they expect -/

/-- The arguments stand at the children of the node from `index` on; where they are reached with
`names` in sight, `last` are in sight after them. -/
def Ahead (program : Program) (node : NodePlace) :
    (index : Nat) → List Expr → (names last : List String) → Prop
  | _, [], names, last => names ⊆ last
  | index, arg :: rest, names, last =>
    ∃ ahead, program.site? (node.child index) = some ⟨arg, ahead⟩ ∧ names ⊆ ahead ∧
      Ahead program node (index + 1) rest (Check.after arg ahead) last

theorem Ahead.shrink {program : Program} {node : NodePlace} {index : Nat} {args : List Expr}
    {names fewer last : List String} (sub : fewer ⊆ names)
    (ahead : Ahead program node index args names last) :
    Ahead program node index args fewer last := by
  cases args with
  | nil => exact List.Subset.trans sub ahead
  | cons arg rest =>
    obtain ⟨expected, site, within, further⟩ := ahead
    exact ⟨expected, site, List.Subset.trans sub within, further⟩

theorem ahead_of_children {program : Program} {node : NodePlace} {names : List String}
    (args : List Expr) :
    ∀ (earlier : List Expr),
      (∀ index child, (earlier ++ args)[index]? = some child →
        program.site? (node.child index) =
          some ⟨child, Check.afterAll ((earlier ++ args).take index) names⟩) →
      Ahead program node earlier.length args (Check.afterAll earlier names)
        (Check.afterAll (earlier ++ args) names) := by
  induction args with
  | nil =>
    intro earlier sites
    simp [Ahead]
  | cons arg rest ih =>
    intro earlier sites
    have site := sites earlier.length arg (by simp)
    rw [List.take_left] at site
    refine ⟨_, site, List.Subset.refl _, ?_⟩
    have further := ih (earlier ++ [arg]) (by simpa using sites)
    simpa [Check.afterAll_append, Check.afterAll] using further

theorem ahead_of_call {program : Program} {node : NodePlace} {span : Span} {callee : Expr}
    {args : List Expr} {names : List String}
    (site : program.site? node = some ⟨.call span callee args, names⟩) :
    Ahead program node 1 args (Check.after callee names)
      (Check.after (.call span callee args) names) := by
  rw [Check.after_call]
  refine ahead_of_children args [callee] ?_
  intro index child found
  rw [Program.site?_child site]
  simp only [Site.child?, Expr.children]
  rw [show (callee :: args)[index]? = some child from found]
  rfl

/-- A value may be handed to the frames, which belong to these nodes, where `names` are in sight; at
the end `goal` are. -/
inductive Resumes (program : Program) (made : Origins) (goal : List String) :
    (names : List String) → List Frame → List NodePlace → Prop
  | ended {names} (within : names ⊆ goal) : Resumes program made goal names [] []
  | define {names name frames node places}
      (below : Resumes program made goal (name :: names) frames places) :
      Resumes program made goal names (.define name false :: frames) (node :: places)
  | right {names ahead span symbol operand frames node places}
      (site : program.site? (node.child 1) = some ⟨operand, ahead⟩) (within : names ⊆ ahead)
      (below : Resumes program made goal (Check.after operand ahead) frames places) :
      Resumes program made goal names (.right span symbol operand :: frames) (node :: places)
  | operate {names span symbol left frames node places}
      (leftPlaced : left.Placed program made)
      (below : Resumes program made goal names frames places) :
      Resumes program made goal names (.operate span symbol left :: frames) (node :: places)
  | branch {names ahead consequent frames node places}
      (site : program.site? (node.child 1) = some ⟨consequent, ahead⟩) (within : names ⊆ ahead)
      (below : Resumes program made goal (Check.after consequent ahead) frames places) :
      Resumes program made goal names (.branch consequent :: frames) (node :: places)
  | callee {names last span expr args frames node places}
      (ahead : Ahead program node 1 args names last)
      (below : Resumes program made goal last frames places) :
      Resumes program made goal names (.callee span expr args :: frames) (node :: places)
  | argument {names last span expr target done rest frames node places}
      (targetPlaced : target.Placed program made)
      (donePlaced : ∀ value ∈ done, value.Placed program made)
      (ahead : Ahead program node (done.length + 2) rest names last)
      (below : Resumes program made goal last frames places) :
      Resumes program made goal names (.argument span expr target done rest :: frames)
        (node :: places)
  | body {names outer span closure args rest caller frames node places}
      (closurePlaced : (Value.function closure).Placed program made)
      (recorded : made closure.id = some node)
      (argsPlaced : ∀ arg ∈ args, arg.Placed program made)
      (left : rest <:+ closure.body) (sees : Sees outer caller)
      (callerPlaced : caller.Placed program made)
      (below : Resumes program made goal outer frames places) :
      Resumes program made goal names (.body span closure args rest caller :: frames)
        (node :: places)

section Resumes
variable {program : Program} {made later : Origins} {goal names fewer : List String}
  {frames : List Frame} {places : List NodePlace}

theorem Resumes.shrink (sub : fewer ⊆ names)
    (resumes : Resumes program made goal names frames places) :
    Resumes program made goal fewer frames places := by
  induction resumes generalizing fewer with
  | ended within => exact .ended (List.Subset.trans sub within)
  | define _ ih => exact .define (ih (List.cons_subset_cons _ sub))
  -- from the next child on, the check's names count and not those bound so far
  | right site within below _ => exact .right site (List.Subset.trans sub within) below
  | operate leftPlaced _ ih => exact .operate leftPlaced (ih sub)
  | branch site within below _ => exact .branch site (List.Subset.trans sub within) below
  | callee ahead below _ => exact .callee (ahead.shrink sub) below
  | argument targetPlaced donePlaced ahead below _ =>
    exact .argument targetPlaced donePlaced (ahead.shrink sub) below
  | body closurePlaced recorded argsPlaced left sees callerPlaced below _ =>
    exact .body closurePlaced recorded argsPlaced left sees callerPlaced below

theorem Resumes.extend (extended : Extends made later)
    (resumes : Resumes program made goal names frames places) :
    Resumes program later goal names frames places := by
  have mono : ∀ closure : Closure, closure.Placed program made → closure.Placed program later :=
    Closure.Placed.mono extended
  induction resumes with
  | ended within => exact .ended within
  | define _ ih => exact .define ih
  | right site within _ ih => exact .right site within ih
  | operate leftPlaced _ ih => exact .operate (leftPlaced.mono mono) ih
  | branch site within _ ih => exact .branch site within ih
  | callee ahead _ ih => exact .callee ahead ih
  | argument targetPlaced donePlaced ahead _ ih =>
    exact .argument (targetPlaced.mono mono)
      (fun value member => (donePlaced value member).mono mono) ahead ih
  | body closurePlaced recorded argsPlaced left sees callerPlaced _ ih =>
    exact .body (closurePlaced.mono mono) (extended _ _ recorded)
      (fun arg member => (argsPlaced arg member).mono mono) left sees (callerPlaced.mono mono) ih

end Resumes

/-- As `Resumes`, but on top there may be the definition of a function, which gets a name that is
possible for it. -/
inductive Takes (program : Program) (made : Origins) (goal : List String)
    (possible : String → Prop) : (names : List String) → List Frame → List NodePlace → Prop
  | plain {names frames places} (resumes : Resumes program made goal names frames places) :
      Takes program made goal possible names frames places
  | naming {names name frames node places} (able : possible name)
      (resumes : Resumes program made goal (name :: names) frames places) :
      Takes program made goal possible names (.define name true :: frames) (node :: places)

section Takes
variable {program : Program} {made later : Origins} {goal names : List String}
  {possible likely : String → Prop} {frames : List Frame} {places : List NodePlace}

theorem Takes.resumes (takes : Takes program made goal possible names frames places)
    (never : ∀ name, ¬ possible name) : Resumes program made goal names frames places := by
  cases takes with
  | plain resumes => exact resumes
  | naming able _ => exact absurd able (never _)

theorem Takes.ended (takes : Takes program made goal possible names [] places) : names ⊆ goal := by
  cases takes with
  | plain resumes =>
    cases resumes with
    | ended within => exact within

theorem Takes.extend (extended : Extends made later) (implies : ∀ name, possible name → likely name)
    (takes : Takes program made goal possible names frames places) :
    Takes program later goal likely names frames places := by
  cases takes with
  | plain resumes => exact .plain (resumes.extend extended)
  | naming able resumes => exact .naming (implies _ able) (resumes.extend extended)

end Takes

end Sapling
