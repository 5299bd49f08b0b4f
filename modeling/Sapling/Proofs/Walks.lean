import Sapling.Expr.Walk
import Sapling.Proofs.Trees

/-!
# What a walk visits

A visitor may answer as it likes and keep a state for it, so which nodes a walk comes to shows only
while it goes on.  The log of a walk holds its calls of the visitor in order, each with the place of
the node.  It lists exactly the nodes that are there and have no ancestor that the visitor stayed
out of, each of them once, a node before its children and children in order (`Expr.exists_log`).  A
visitor that always goes inside sees every node (`Lists.visited_of_entered`).
-/

set_option autoImplicit false

namespace Sapling

/-! ## Places in trees -/

namespace Expr

/-- The node at a place: the indices of the children on the way down to it, first step first. -/
def at? : Expr → List Nat → Option Expr
  | expr, [] => some expr
  | expr, index :: path => expr.children[index]?.bind (·.at? path)

def from? (first : Nat) (exprs : List Expr) : List Nat → Option Expr
  | [] => none
  | index :: path => if first ≤ index then exprs[index - first]?.bind (·.at? path) else none

theorem at?_cons (expr : Expr) (index : Nat) (path : List Nat) :
    expr.at? (index :: path) = from? 0 expr.children (index :: path) := rfl

theorem from?_here (first : Nat) (expr : Expr) (rest : List Expr) (path : List Nat) :
    from? first (expr :: rest) (first :: path) = expr.at? path := by
  simp [from?]

theorem from?_there {first index : Nat} (different : index ≠ first) (expr : Expr)
    (rest : List Expr) (path : List Nat) :
    from? first (expr :: rest) (index :: path) = from? (first + 1) rest (index :: path) := by
  rcases Nat.lt_or_gt_of_ne different with less | more
  · simp only [from?, show ¬ first ≤ index by omega, show ¬ first + 1 ≤ index by omega, if_false]
  · have step : index - first = index - (first + 1) + 1 := by omega
    simp only [from?, show first ≤ index by omega, show first + 1 ≤ index by omega, if_true, step,
      List.getElem?_cons_succ]

theorem le_of_from? {first index : Nat} {exprs : List Expr} {path : List Nat} {node : Expr}
    (found : from? first exprs (index :: path) = some node) : first ≤ index := by
  refine Nat.le_of_not_lt fun less => ?_
  simp [from?, Nat.not_le.mpr less] at found

theorem at?_append (expr : Expr) (path rest : List Nat) :
    expr.at? (path ++ rest) = (expr.at? path).bind (·.at? rest) := by
  induction path generalizing expr with
  | nil => rfl
  | cons index path ih =>
    rw [List.cons_append, at?, at?]
    cases expr.children[index]? with
    | none => rfl
    | some child => exact ih child

theorem from?_append {first : Nat} {exprs : List Expr} {path : List Nat} {outer : Expr}
    (found : from? first exprs path = some outer) (rest : List Nat) :
    from? first exprs (path ++ rest) = outer.at? rest := by
  cases path with
  | nil => cases found
  | cons index path =>
    have counted := le_of_from? found
    simp only [List.cons_append, from?, counted, if_true] at found ⊢
    obtain ⟨expr, isRoot, below⟩ := Option.bind_eq_some_iff.mp found
    rw [isRoot, Option.bind_some, at?_append, below, Option.bind_some]

theorem isHole_of_from? {first index : Nat} {exprs : List Expr} {above path : List Nat}
    {outer node : Expr} (isAbove : from? first exprs above = some outer)
    (found : from? first exprs (above ++ index :: path) = some node) : outer.isHole = false := by
  rw [from?_append isAbove, at?] at found
  cases outer with
  | hole => simp [children] at found
  | _ => rfl

end Expr

/-- The first of two places is visited before the second: it lies above it, or the two ways part at
a node and it takes the earlier child. -/
inductive Precedes : List Nat → List Nat → Prop
  | above (place : List Nat) (index : Nat) (path : List Nat) :
      Precedes place (place ++ index :: path)
  | earlier (common : List Nat) {i j : Nat} (less : i < j) (path other : List Nat) :
      Precedes (common ++ i :: path) (common ++ j :: other)

theorem Precedes.below {place other : List Nat} (precedes : Precedes place other) (index : Nat) :
    Precedes (index :: place) (index :: other) := by
  cases precedes with
  | above place step path => exact .above (index :: place) step path
  | earlier common less path other => exact .earlier (index :: common) less path other

theorem Precedes.ne {place other : List Nat} (precedes : Precedes place other) :
    place ≠ other := by
  cases precedes with
  | above place index path => simp
  | earlier common less path other =>
    intro same
    have heads := (List.cons.inj (List.append_cancel_left same)).1
    omega

/-! ## Logs -/

/-- A call of a visitor: the place of the node, the node, and whether the visitor goes inside. -/
structure Visit where
  place : List Nat
  node : Expr
  enters : Bool

namespace Visit

def call (visit : Visit) : Expr × Bool := (visit.node, visit.enters)

def below (index : Nat) (visit : Visit) : Visit := { visit with place := index :: visit.place }

end Visit

def Ancestors (node? : List Nat → Option Expr) (place : List Nat)
    (good : List Nat → Expr → Prop) : Prop :=
  ∀ above outer, above <+: place → above ≠ place → node? above = some outer → good above outer

theorem ancestors_nil {node? : List Nat → Option Expr} {good : List Nat → Expr → Prop} :
    Ancestors node? [] good :=
  fun _ _ isPrefix proper _ => absurd (List.prefix_nil.mp isPrefix) proper

theorem ancestors_cons {node? : List Nat → Option Expr} {index : Nat} {path : List Nat}
    {good : List Nat → Expr → Prop} :
    Ancestors node? (index :: path) good ↔
      (∀ outer, node? [] = some outer → good [] outer) ∧
        Ancestors (fun above => node? (index :: above)) path
          (fun above => good (index :: above)) := by
  constructor
  · intro all
    refine ⟨fun outer => all [] outer List.nil_prefix (by simp), ?_⟩
    intro above outer isPrefix proper
    exact all _ outer (List.cons_prefix_cons.mpr ⟨rfl, isPrefix⟩) (by simpa using proper)
  · rintro ⟨root, below⟩ above outer isPrefix proper found
    cases above with
    | nil => exact root outer found
    | cons step above =>
      obtain ⟨rfl, within⟩ := List.cons_prefix_cons.mp isPrefix
      exact below above outer within (by simpa using proper) found

/-- The log lists, in order, the nodes that are there and have no ancestor that the visitor stayed
out of. -/
structure Lists (node? : List Nat → Option Expr) (log : List Visit) : Prop where
  ordered : log.Pairwise fun earlier later => Precedes earlier.place later.place
  visited (place : List Nat) (node : Expr) :
    (∃ enters, ⟨place, node, enters⟩ ∈ log) ↔
      node? place = some node ∧ node.isHole = false ∧
        Ancestors node? place fun above outer => ⟨above, outer, true⟩ ∈ log

section Lists
variable {node? : List Nat → Option Expr} {log : List Visit}

theorem Lists.once (lists : Lists node? log) : (log.map Visit.place).Nodup := by
  rw [List.Nodup, List.pairwise_map]
  exact lists.ordered.imp Precedes.ne

theorem Lists.found (lists : Lists node? log) {visit : Visit} (member : visit ∈ log) :
    node? visit.place = some visit.node :=
  ((lists.visited visit.place visit.node).mp ⟨visit.enters, member⟩).1

theorem lists_nil (absent : ∀ place node, node? place = some node → node.isHole = true) :
    Lists node? [] := by
  refine ⟨List.Pairwise.nil, fun place node => ?_⟩
  constructor
  · rintro ⟨_, member⟩
    cases member
  · rintro ⟨found, present, _⟩
    rw [absent place node found] at present
    cases present

theorem Lists.append {expr : Expr} {rest : List Expr} {first : Nat} {others : List Visit}
    (here : Lists expr.at? log) (after : Lists (Expr.from? (first + 1) rest) others) :
    Lists (Expr.from? first (expr :: rest)) (log.map (Visit.below first) ++ others) := by
  -- the first step of a place tells to which of the two logs a visit belongs
  have later {visit : Visit} (member : visit ∈ others) :
      ∃ index path, visit.place = index :: path ∧ first < index := by
    have found := after.found member
    obtain ⟨place, node, enters⟩ := visit
    cases place with
    | nil => cases found
    | cons index path => exact ⟨index, path, rfl, Expr.le_of_from? found⟩
  have mem_here (path : List Nat) (node : Expr) (enters : Bool) :
      ⟨first :: path, node, enters⟩ ∈ log.map (Visit.below first) ++ others ↔
        ⟨path, node, enters⟩ ∈ log := by
    rw [List.mem_append, or_iff_left, List.mem_map]
    · exact ⟨fun ⟨_, member, same⟩ => by cases same; exact member, fun member => ⟨_, member, rfl⟩⟩
    · intro member
      obtain ⟨_, _, same, less⟩ := later member
      cases same
      exact Nat.lt_irrefl _ less
  have mem_after {index : Nat} (different : index ≠ first) (path : List Nat) (node : Expr)
      (enters : Bool) :
      ⟨index :: path, node, enters⟩ ∈ log.map (Visit.below first) ++ others ↔
        ⟨index :: path, node, enters⟩ ∈ others := by
    rw [List.mem_append, or_iff_right]
    rintro member
    obtain ⟨_, _, same⟩ := List.mem_map.mp member
    cases same
    exact different rfl
  refine ⟨List.pairwise_append.mpr ⟨?_, after.ordered, ?_⟩, fun place node => ?_⟩
  · exact List.pairwise_map.mpr (here.ordered.imp fun precedes => precedes.below first)
  · intro visit member other isOther
    obtain ⟨inside, _, rfl⟩ := List.mem_map.mp member
    obtain ⟨index, path, place, less⟩ := later isOther
    rw [place]
    exact .earlier [] less inside.place path
  · cases place with
    | nil =>
      refine ⟨fun ⟨enters, member⟩ => ?_, fun ⟨found, _⟩ => by cases found⟩
      rcases List.mem_append.mp member with member | member
      · obtain ⟨_, _, same⟩ := List.mem_map.mp member
        cases same
      · cases after.found member
    | cons index path =>
      by_cases same : index = first
      · subst same
        simp only [mem_here, ancestors_cons, Expr.from?_here, here.visited]
        simp [Expr.from?]
      · simp only [mem_after same, ancestors_cons, Expr.from?_there same, after.visited]
        simp [Expr.from?]

theorem lists_node {expr : Expr} (present : expr.isHole = false) (enters : Bool)
    (inside : enters = true → Lists (Expr.from? 0 expr.children) log)
    (outside : enters = false → log = []) :
    Lists expr.at? (⟨[], expr, enters⟩ :: log) := by
  have deeper {visit : Visit} (member : visit ∈ log) :
      ∃ index path, visit.place = index :: path := by
    cases enters with
    | false =>
      rw [outside rfl] at member
      cases member
    | true =>
      have found := (inside rfl).found member
      obtain ⟨place, node, enters⟩ := visit
      cases place with
      | nil => cases found
      | cons index path => exact ⟨index, path, rfl⟩
  have mem_root (node : Expr) (answer : Bool) :
      ⟨[], node, answer⟩ ∈ ⟨[], expr, enters⟩ :: log ↔ node = expr ∧ answer = enters := by
    rw [List.mem_cons, or_iff_left]
    · simp
    · intro member
      obtain ⟨_, _, same⟩ := deeper member
      cases same
  refine ⟨List.pairwise_cons.mpr ⟨?_, ?_⟩, fun place node => ?_⟩
  · intro visit member
    obtain ⟨index, path, place⟩ := deeper member
    rw [place]
    exact .above [] index path
  · cases enters with
    | false => simp [outside rfl]
    | true => exact (inside rfl).ordered
  · cases place with
    | nil =>
      simp only [mem_root, Expr.at?, Option.some.injEq]
      constructor
      · rintro ⟨_, rfl, _⟩
        exact ⟨rfl, present, ancestors_nil⟩
      · rintro ⟨rfl, _⟩
        exact ⟨enters, rfl, rfl⟩
    | cons index path =>
      simp only [ancestors_cons, Expr.at?_cons, List.mem_cons, Visit.mk.injEq,
        reduceCtorEq, false_and, false_or]
      cases enters with
      | false => simp [outside rfl, Expr.at?]
      | true =>
        rw [(inside rfl).visited, ancestors_cons]
        simp [Expr.from?, Expr.at?]

end Lists

/-! ## Walks -/

variable {σ : Type}

/-- The visitor that also notes its calls, last of all those noted before. -/
def Visitor.noting (visit : Visitor σ) : Visitor (σ × List (Expr × Bool)) :=
  fun expr (state, calls) =>
    let (state, enters) := visit expr state
    ((state, calls ++ [(expr, enters)]), enters)

inductive Visitor.Answers (visit : Visitor σ) : σ → List (Expr × Bool) → σ → Prop
  | nil (state : σ) : visit.Answers state [] state
  | cons {state next last : σ} {node : Expr} {enters : Bool} {calls : List (Expr × Bool)}
      (answer : visit node state = (next, enters)) (others : visit.Answers next calls last) :
      visit.Answers state ((node, enters) :: calls) last

/-- From this state the visitor is called so and not otherwise: these are the calls that it notes,
and nothing but the calls changes the state. -/
structure Visitor.Calls (visit : Visitor σ) (walk : σ → σ)
    (noting : σ × List (Expr × Bool) → σ × List (Expr × Bool)) (state : σ)
    (calls : List (Expr × Bool)) : Prop where
  noted (earlier : List (Expr × Bool)) : noting (state, earlier) = (walk state, earlier ++ calls)
  answered : visit.Answers state calls (walk state)

section Calls
variable {visit : Visitor σ} {state : σ} {calls : List (Expr × Bool)}

theorem Visitor.Answers.append {next last : σ} {others : List (Expr × Bool)}
    (first : visit.Answers state calls next) (second : visit.Answers next others last) :
    visit.Answers state (calls ++ others) last := by
  induction first with
  | nil => exact second
  | cons answer _ ih => exact .cons answer (ih second)

theorem calls_none : visit.Calls (fun state => state) (fun state => state) state [] :=
  ⟨fun earlier => by rw [List.append_nil], .nil state⟩

theorem Visitor.Calls.append {first second : σ → σ}
    {noteFirst noteSecond : σ × List (Expr × Bool) → σ × List (Expr × Bool)}
    {others : List (Expr × Bool)} (before : visit.Calls first noteFirst state calls)
    (after : visit.Calls second noteSecond (first state) others) :
    visit.Calls (fun state => second (first state)) (fun state => noteSecond (noteFirst state))
      state (calls ++ others) := by
  refine ⟨fun earlier => ?_, before.answered.append after.answered⟩
  rw [before.noted, after.noted, List.append_assoc]

theorem calls_visitThen (expr : Expr) {inside : σ → σ}
    {noteInside : σ × List (Expr × Bool) → σ × List (Expr × Bool)}
    (within : (visit expr state).2 = true →
      visit.Calls inside noteInside (visit expr state).1 calls)
    (without : (visit expr state).2 = false → calls = []) :
    visit.Calls (Expr.visitThen visit expr inside) (Expr.visitThen visit.noting expr noteInside)
      state ((expr, (visit expr state).2) :: calls) := by
  rcases answer : visit expr state with ⟨next, enters⟩
  rw [answer] at within without
  cases enters with
  | false =>
    rw [without rfl]
    refine ⟨fun earlier => ?_, .cons answer ?_⟩
    · simp [Expr.visitThen, Visitor.noting, answer]
    · simpa [Expr.visitThen, answer] using Visitor.Answers.nil next
  | true =>
    obtain ⟨noted, answered⟩ := within rfl
    refine ⟨fun earlier => ?_, .cons answer ?_⟩
    · simp [Expr.visitThen, Visitor.noting, answer, noted]
    · simpa [Expr.visitThen, answer] using answered

end Calls

structure Expr.Logged (visit : Visitor σ) (expr : Expr) (state : σ) (log : List Visit) : Prop where
  calls : visit.Calls (expr.walk visit) (expr.walk visit.noting) state (log.map Visit.call)
  lists : Lists expr.at? log

structure Expr.LoggedAll (visit : Visitor σ) (first : Nat) (exprs : List Expr) (state : σ)
    (log : List Visit) : Prop where
  calls : visit.Calls (walkAll visit exprs) (walkAll visit.noting exprs) state (log.map Visit.call)
  lists : Lists (from? first exprs) log

namespace Expr

variable (visit : Visitor σ)

theorem exists_logAll {exprs : List Expr}
    (each : ∀ expr ∈ exprs, ∀ state, ∃ log, Logged visit expr state log) :
    ∀ first state, ∃ log, LoggedAll visit first exprs state log := by
  induction exprs with
  | nil =>
    intro first state
    refine ⟨[], calls_none, lists_nil ?_⟩
    intro place node found
    cases place <;> simp [from?] at found
  | cons expr rest ih =>
    intro first state
    obtain ⟨here, others⟩ := List.forall_mem_cons.mp each
    obtain ⟨log, calls, lists⟩ := here state
    obtain ⟨more, moreCalls, moreLists⟩ := ih others (first + 1) (expr.walk visit state)
    refine ⟨log.map (Visit.below first) ++ more, ?_, lists.append moreLists⟩
    have same : (log.map (Visit.below first) ++ more).map Visit.call =
        log.map Visit.call ++ more.map Visit.call := by
      simp [Visit.call, Visit.below]
    rw [same]
    exact calls.append moreCalls

theorem exists_log (expr : Expr) : ∀ state, ∃ log, Logged visit expr state log := by
  induction expr using children_induction with
  | node expr ih =>
    intro state
    cases hole : expr.isHole with
    | true =>
      obtain rfl : expr = .hole := by
        cases expr with
        | hole => rfl
        | _ => cases hole
      refine ⟨[], calls_none, lists_nil ?_⟩
      intro place node found
      cases place with
      | nil => cases found; rfl
      | cons index path => simp [at?, children] at found
    | false =>
      -- the log of the children is that of a walk from the state that the visit leaves
      obtain ⟨inside, insideCalls, insideLists⟩ :=
        exists_logAll visit ih 0 (visit expr state).1
      let log := if (visit expr state).2 then inside else []
      refine ⟨⟨[], expr, (visit expr state).2⟩ :: log, ?_, lists_node hole _ ?_ ?_⟩
      · rw [walk_eq visit hole, walk_eq visit.noting hole]
        refine calls_visitThen expr ?_ ?_
        · intro enters
          simpa [log, enters] using insideCalls
        · intro stays
          simp [log, stays]
      · intro enters
        simpa [log, enters] using insideLists
      · intro stays
        simp [log, stays]

end Expr

/-! ## Visitors that always go inside -/

theorem Lists.visited_of_entered {exprs : List Expr} {log : List Visit}
    (lists : Lists (Expr.from? 0 exprs) log) (entered : ∀ visit ∈ log, visit.enters = true) :
    ∀ place node, Expr.from? 0 exprs place = some node → node.isHole = false →
      ⟨place, node, true⟩ ∈ log := by
  intro place
  induction length : place.length using Nat.strongRecOn generalizing place with
  | ind bound ih =>
    intro node found present
    have isIn : ∃ enters, ⟨place, node, enters⟩ ∈ log := by
      refine (lists.visited place node).mpr ⟨found, present, ?_⟩
      rintro above outer ⟨below, rfl⟩ proper isAbove
      -- an ancestor has the node below it, so it is there
      obtain ⟨index, path, rfl⟩ : ∃ index path, below = index :: path :=
        List.exists_cons_of_ne_nil fun none => proper (by simp [none])
      have shorter : above.length < bound := by
        rw [← length]
        simp
      refine ih above.length shorter above rfl outer isAbove ?_
      exact Expr.isHole_of_from? isAbove found
    obtain ⟨enters, member⟩ := isIn
    obtain rfl : enters = true := entered _ member
    exact member

end Sapling
