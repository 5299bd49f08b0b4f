import Mathlib.Data.List.Forall2
import Mathlib.Data.List.Nodup
import Sapling.Proofs.Sites

/-!
# Reads of names that a body has lost

An expression of a function's body binds a name for itself only: a later expression of the body that
reads the name does not see the binding.  The check warns of such reads.  It goes through a body
with the names lost so far, and looks for reads of them below each expression, while the functions
it comes to there are checked in their turn.  So there may be several warnings of one read, one for
each function around it that has lost the name.

A `BodyRead` is a function, one of its body expressions, and a read below that expression, all by
their places.  `BodyRead.IsStale` says which of them deserve a warning, and the main statement is
that the check gives each of these one warning, and no others.
-/

set_option autoImplicit false

namespace Sapling

/-! ## One diagnostic for each item -/

section Listed
variable {α β : Type} {tells : α → β → Prop} {p q r : α → Prop} {first second : List β}

/-- The list tells of the items with the property, once of each. -/
def Listed (tells : α → β → Prop) (p : α → Prop) (list : List β) : Prop :=
  ∃ items : List α, items.Nodup ∧ (∀ item, item ∈ items ↔ p item) ∧
    List.Forall₂ tells items list

theorem listed_nil (nothing : ∀ item, ¬ p item) : Listed tells p [] :=
  ⟨[], List.nodup_nil, fun item => iff_of_false List.not_mem_nil (nothing item), .nil⟩

theorem listed_singleton (item : α) {b : β} (only : ∀ other, p other ↔ other = item)
    (told : tells item b) : Listed tells p [b] :=
  ⟨[item], by simp, fun other => by simp [only], .cons told .nil⟩

theorem Listed.append (firsts : Listed tells p first) (seconds : Listed tells q second)
    (apart : ∀ item, p item → ¬ q item) (either : ∀ item, r item ↔ p item ∨ q item) :
    Listed tells r (first ++ second) := by
  obtain ⟨items, nodup, members, told⟩ := firsts
  obtain ⟨others, otherNodup, otherMembers, otherTold⟩ := seconds
  refine ⟨items ++ others, ?_, ?_, List.rel_append told otherTold⟩
  · refine List.nodup_append.mpr ⟨nodup, otherNodup, ?_⟩
    rintro item isIn other isOther rfl
    exact apart item ((members item).mp isIn) ((otherMembers item).mp isOther)
  · intro item
    rw [List.mem_append, members, otherMembers, either]

theorem Listed.flatten {share : Nat → α → Prop} {lists : List (List β)}
    (apart : ∀ i j item, share i item → share j item → i = j)
    (each : ∀ i list, lists[i]? = some list → Listed tells (share i) list) :
    Listed tells (fun item => ∃ i < lists.length, share i item) lists.flatten := by
  induction lists generalizing share with
  | nil => exact listed_nil (by simp)
  | cons list rest ih =>
    have others : Listed tells (fun item => ∃ i < rest.length, share (i + 1) item) rest.flatten :=
      ih (fun i j item first second => Nat.succ.inj (apart _ _ item first second))
        fun i other found => each (i + 1) other (by simpa using found)
    rw [List.flatten_cons]
    refine (each 0 list rfl).append others ?_ fun item => ?_
    · rintro item isFirst ⟨i, -, isLater⟩
      have same := apart _ _ item isFirst isLater
      omega
    · constructor
      · rintro ⟨i, less, isIn⟩
        cases i with
        | zero => exact .inl isIn
        | succ i => exact .inr ⟨i, by simpa using less, isIn⟩
      · rintro (isIn | ⟨i, less, isIn⟩)
        · exact ⟨0, by simp, isIn⟩
        · exact ⟨i + 1, by simpa using less, isIn⟩

theorem Listed.congr (listed : Listed tells p first) (same : ∀ item, q item ↔ p item) :
    Listed tells q first := by
  obtain ⟨items, nodup, members, told⟩ := listed
  exact ⟨items, nodup, fun item => (members item).trans (same item).symm, told⟩

theorem Listed.map {γ : Type} {speaks : γ → β → Prop} {s : γ → Prop} {f : α → γ}
    (listed : Listed tells p first) (injective : Function.Injective f)
    (image : ∀ c, s c ↔ ∃ item, p item ∧ f item = c)
    (spoken : ∀ item b, tells item b → speaks (f item) b) : Listed speaks s first := by
  obtain ⟨items, nodup, members, told⟩ := listed
  refine ⟨items.map f, nodup.map injective, fun c => ?_, ?_⟩
  · simp [image, members]
  · exact List.forall₂_map_left_iff.mpr (told.imp spoken)

end Listed

/-! ## Places inside others -/

namespace NodePlace

def Holds (outer inner : NodePlace) : Prop :=
  inner.statement = outer.statement ∧ outer.path <:+ inner.path

variable {outer between inner : NodePlace} {i j : Nat}

theorem holds_self (place : NodePlace) : place.Holds place := ⟨rfl, List.suffix_refl _⟩

theorem Holds.trans (first : outer.Holds between) (second : between.Holds inner) :
    outer.Holds inner :=
  ⟨second.1.trans first.1, first.2.trans second.2⟩

theorem holds_child (place : NodePlace) (i : Nat) : place.Holds (place.child i) :=
  ⟨rfl, List.suffix_cons _ _⟩

theorem Holds.eq_or_child (holds : outer.Holds inner) :
    inner = outer ∨ ∃ i, (outer.child i).Holds inner := by
  obtain ⟨same, front, joined⟩ := holds
  -- the last index in front of the outer path is the child that the inner place lies in
  rcases List.eq_nil_or_concat front with rfl | ⟨below, i, rfl⟩
  · left
    cases inner
    cases outer
    exact congrArg₂ mk same joined.symm
  · refine .inr ⟨i, same, below, ?_⟩
    rw [← joined, child]
    simp

theorem Holds.child_inj (first : (outer.child i).Holds inner)
    (second : (outer.child j).Holds inner) : i = j := by
  obtain ⟨-, below, joined⟩ := first
  obtain ⟨-, other, same⟩ := second
  simp only [child] at joined same
  have equal : (below ++ [i]) ++ outer.path = (other ++ [j]) ++ outer.path := by
    simpa using joined.trans same.symm
  have ends := List.append_inj_right' (List.append_cancel_right equal) rfl
  exact (List.cons.inj ends).1

theorem child_not_holds (place : NodePlace) (i : Nat) : ¬ (place.child i).Holds place := by
  rintro ⟨-, suffix⟩
  have shorter := suffix.length_le
  simp only [child, List.length_cons] at shorter
  omega

theorem Holds.antisymm (first : outer.Holds inner) (second : inner.Holds outer) :
    inner = outer := by
  rcases first.eq_or_child with same | ⟨i, below⟩
  · exact same
  · exact absurd (below.trans second) (child_not_holds outer i)

end NodePlace

namespace Program

def node? (program : Program) (place : NodePlace) : Option Expr :=
  (program.site? place).map Site.expr

variable {program : Program} {place : NodePlace} {node : Expr}

theorem node?_of_site {site : Site} (found : program.site? place = some site) :
    program.node? place = some site.expr := by
  rw [node?, found]
  rfl

theorem node?_child (found : program.node? place = some node) (i : Nat) :
    program.node? (place.child i) = node.children[i]? := by
  obtain ⟨site, isSite, rfl⟩ := Option.map_eq_some_iff.mp found
  rw [node?, site?_child isSite, Site.child?, Option.map_map]
  cases site.expr.children[i]? <;> rfl

theorem exists_node?_of_holds {outer inner : NodePlace} (holds : outer.Holds inner)
    (found : program.node? inner = some node) : ∃ above, program.node? outer = some above := by
  obtain ⟨statement, path⟩ := inner
  obtain ⟨rfl, below, rfl⟩ := holds
  obtain ⟨site, isSite, -⟩ := Option.map_eq_some_iff.mp found
  obtain ⟨statement, isStatement, reached⟩ := Option.bind_eq_some_iff.mp isSite
  rw [Site.descend?_append] at reached
  obtain ⟨above, isAbove, -⟩ := Option.bind_eq_some_iff.mp reached
  refine ⟨above.expr, node?_of_site ?_⟩
  rw [site?, isStatement]
  exact isAbove

theorem child_lt_of_holds {inner : NodePlace} {below : Expr} {i : Nat}
    (found : program.node? place = some node) (holds : (place.child i).Holds inner)
    (isNode : program.node? inner = some below) : i < node.children.length := by
  obtain ⟨child, isChild⟩ := exists_node?_of_holds holds isNode
  rw [node?_child found] at isChild
  exact (List.getElem?_eq_some_iff.mp isChild).1

end Program

/-! ## Reads below an expression -/

/-- At the inner place, which the outer one holds, the name is read, and no function on the way down
from the outer place takes the name as a parameter. -/
structure Program.ReadsBelow (program : Program) (outer inner : NodePlace) (name : String) :
    Prop where
  inside : outer.Holds inner
  read : ∃ span, program.node? inner = some (.read span name)
  visible : ∀ between, outer.Holds between → between.Holds inner → ∀ span params body,
    program.node? between = some (.function span params body) → name ∉ params

def Expr.Hides (node : Expr) (name : String) : Prop :=
  ∃ span params body, node = .function span params body ∧ name ∈ params

section Reads
variable {program : Program} {place inner : NodePlace} {node : Expr} {name : String}

theorem Program.readsBelow_iff (found : program.node? place = some node) :
    program.ReadsBelow place inner name ↔
      (inner = place ∧ ∃ span, node = .read span name) ∨
        ¬ node.Hides name ∧
          ∃ i < node.children.length, program.ReadsBelow (place.child i) inner name := by
  constructor
  · rintro ⟨inside, ⟨span, isRead⟩, visible⟩
    rcases inside.eq_or_child with rfl | ⟨i, below⟩
    · exact .inl ⟨rfl, span, Option.some.inj (found.symm.trans isRead)⟩
    · refine .inr ⟨?_, i, child_lt_of_holds found below isRead, below, ⟨span, isRead⟩, ?_⟩
      · rintro ⟨span, params, body, rfl, isIn⟩
        exact visible place place.holds_self inside span params body found isIn
      · exact fun between outer => visible between ((place.holds_child i).trans outer)
  · rintro (⟨rfl, span, rfl⟩ | ⟨shown, i, -, below⟩)
    · refine ⟨inner.holds_self, ⟨span, found⟩, ?_⟩
      intro between outer within span params body isFunction
      rw [outer.antisymm within, found] at isFunction
      cases isFunction
    · refine ⟨(place.holds_child i).trans below.inside, below.read, ?_⟩
      intro between outer within span params body isFunction
      rcases outer.eq_or_child with rfl | ⟨j, lower⟩
      · rw [found] at isFunction
        cases isFunction
        exact fun isIn => shown ⟨span, params, body, rfl, isIn⟩
      · obtain rfl := below.inside.child_inj (lower.trans within)
        exact below.visible between lower within span params body isFunction

end Reads

namespace Check

def unhidden (stale : List String) : Expr → List String
  | .function _ params _ => stale.filter (· ∉ params)
  | _ => stale

theorem mem_unhidden {stale : List String} {node : Expr} {name : String} :
    name ∈ unhidden stale node ↔ name ∈ stale ∧ ¬ node.Hides name := by
  cases node with
  | function span params body => simp [unhidden, Expr.Hides]
  | _ => simp [unhidden, Expr.Hides]

theorem staleReadsAll_eq (stale captured : List String) (nodes : List Expr) :
    staleReadsAll stale captured nodes = (nodes.map (staleReads stale captured)).flatten := by
  induction nodes with
  | nil => rw [staleReadsAll]; rfl
  | cons node rest ih => rw [staleReadsAll, ih]; rfl

theorem staleReads_eq (stale captured : List String) {node : Expr}
    (other : ∀ span name, node ≠ .read span name) :
    staleReads stale captured node =
      (node.children.map (staleReads (unhidden stale node) captured)).flatten := by
  cases node with
  | read span name => exact absurd rfl (other span name)
  | _ => simp [staleReads, staleReadsAll_eq, Expr.children, unhidden]

def WarnsOf (program : Program) (captured : List String) (place : NodePlace) (d : Diagnostic) :
    Prop :=
  ∃ span name, program.node? place = some (.read span name) ∧
    d = staleRead span name (captured.contains name)

/-- Below an expression there is one warning for each read of a stale name that is not hidden. -/
theorem staleReads_listed {program : Program} (captured : List String) (node : Expr) :
    ∀ (stale : List String) {place : NodePlace}, program.node? place = some node →
      Listed (WarnsOf program captured)
        (fun inner => ∃ name ∈ stale, program.ReadsBelow place inner name)
        (staleReads stale captured node) := by
  induction node using Expr.children_induction with
  | node node ih =>
    intro stale place found
    by_cases isRead : ∃ span name, node = .read span name
    · obtain ⟨span, name, rfl⟩ := isRead
      have itself (inner : NodePlace) (other : String) :
          program.ReadsBelow place inner other ↔ inner = place ∧ name = other := by
        rw [Program.readsBelow_iff found]
        simp [Expr.children]
      rw [staleReads]
      by_cases isStale : name ∈ stale
      · rw [if_pos isStale]
        refine listed_singleton place (fun inner => ?_) ⟨span, name, found, rfl⟩
        simp [itself, isStale]
      · rw [if_neg isStale]
        refine listed_nil ?_
        rintro inner ⟨other, isIn, below⟩
        exact isStale (((itself inner other).mp below).2 ▸ isIn)
    · have notRead (span : Span) (name : String) : node ≠ .read span name :=
        fun same => isRead ⟨span, name, same⟩
      rw [staleReads_eq stale captured notRead]
      have each : ∀ i list,
          (node.children.map (staleReads (unhidden stale node) captured))[i]? = some list →
            Listed (WarnsOf program captured) (fun inner => ∃ name ∈ unhidden stale node,
              program.ReadsBelow (place.child i) inner name) list := by
        intro i list isList
        rw [List.getElem?_map] at isList
        obtain ⟨child, isChild, rfl⟩ := Option.map_eq_some_iff.mp isList
        exact ih child (List.mem_of_getElem? isChild) _
          ((Program.node?_child found i).trans isChild)
      refine (Listed.flatten ?_ each).congr fun inner => ?_
      · rintro i j inner ⟨_, _, first⟩ ⟨_, _, second⟩
        exact first.inside.child_inj second.inside
      · simp only [Program.readsBelow_iff found, notRead, exists_false, and_false, false_or,
          mem_unhidden, List.length_map]
        grind

/-! ## Stale reads among the diagnostics -/

def staleOf (diagnostics : List Diagnostic) : List Diagnostic :=
  diagnostics.filter (·.code = Code.bodyScope.text)

@[simp] theorem staleOf_nil : staleOf [] = [] := rfl

@[simp] theorem staleOf_append (first second : List Diagnostic) :
    staleOf (first ++ second) = staleOf first ++ staleOf second :=
  List.filter_append ..

theorem staleOf_eq_nil {diagnostics : List Diagnostic}
    (others : ∀ d ∈ diagnostics, ∃ code, d.code = Code.text code ∧ code ≠ .bodyScope) :
    staleOf diagnostics = [] := by
  refine List.filter_eq_nil_iff.mpr fun d member => ?_
  obtain ⟨code, isCode, differs⟩ := others d member
  simpa [isCode] using fun same => differs (Code.text_inj same)

theorem staleOf_staleReads (stale captured : List String) (node : Expr) :
    staleOf (staleReads stale captured node) = staleReads stale captured node := by
  refine List.filter_eq_self.mpr fun d member => ?_
  simpa using (staleReads_isStale node stale member).code

theorem staleOf_own {defined names : List String} {node : Expr} {absent : Diagnostic}
    (isMissing : IsMissing absent) : staleOf (own defined node absent names) = [] := by
  refine staleOf_eq_nil fun d member => ?_
  cases node with
  | hole => exact ⟨.ast, List.mem_singleton.mp member ▸ isMissing.1, by decide⟩
  | literal span value => simp [own] at member
  | guarded span condition consequent => simp [own] at member
  | call span callee args => simp [own] at member
  | read span name =>
    simp only [own] at member
    split at member
    · exact ⟨.ast, List.mem_singleton.mp member ▸ rfl, by decide⟩
    · split at member
      · simp at member
      · exact ⟨.undefined, List.mem_singleton.mp member ▸ rfl, by decide⟩
  | define span name value =>
    simp only [own] at member
    split at member
    · exact ⟨.ast, List.mem_singleton.mp member ▸ rfl, by decide⟩
    · simp at member
  | binary span symbol left right =>
    simp only [own] at member
    split at member
    · exact ⟨.ast, List.mem_singleton.mp member ▸ rfl, by decide⟩
    · simp at member
  | function span params body =>
    rcases List.mem_append.mp member with ofParams | ofBody
    · rcases params_code ofParams with code | code
      · exact ⟨.ast, code, by decide⟩
      · exact ⟨.duplicateParam, code, by decide⟩
    · split at ofBody
      · exact ⟨.emptyBody, List.mem_singleton.mp ofBody ▸ rfl, by decide⟩
      · simp at ofBody

/-! ## What is reported child by child -/

/-- The names that a node has lost when it comes to a child: only a function loses any. -/
def lostIn (node : Expr) (index : Nat) : List String :=
  match node with
  | .function _ params body =>
    (body.take index).reverse.filterMap (bodyName? (params.filter (· ≠ "")))
  | _ => []

/-- Lists of stale reads, one for each of the nodes: first the reads of lost names below the node,
then what its own check finds. -/
inductive Parts (defined names : List String) :
    (lost seen : Nat → List String) → List Expr → List (List Diagnostic) → Prop
  | nil {lost seen : Nat → List String} : Parts defined names lost seen [] []
  | cons {lost seen : Nat → List String} {node : Expr} {rest : List Expr}
      {lists : List (List Diagnostic)} {absent : Diagnostic} (isMissing : IsMissing absent)
      (others : Parts defined names (fun i => lost (i + 1)) (fun i => seen (i + 1)) rest lists) :
      Parts defined names lost seen (node :: rest)
        ((staleReads (lost 0) names node ++
          staleOf (Check.expr defined node absent (seen 0)).diagnostics) :: lists)

section Parts
variable {defined names : List String} {lost seen : Nat → List String} {nodes : List Expr}
  {lists : List (List Diagnostic)}

theorem Parts.length_eq (parts : Parts defined names lost seen nodes lists) :
    lists.length = nodes.length := by
  induction parts with
  | nil => rfl
  | cons isMissing others ih => simp [ih]

theorem Parts.get {i : Nat} {list : List Diagnostic}
    (parts : Parts defined names lost seen nodes lists) (found : lists[i]? = some list) :
    ∃ node absent, nodes[i]? = some node ∧ IsMissing absent ∧
      list = staleReads (lost i) names node ++
        staleOf (Check.expr defined node absent (seen i)).diagnostics := by
  induction parts generalizing i with
  | nil => simp at found
  | @cons lost seen node rest lists absent isMissing others ih =>
    cases i with
    | zero => exact ⟨node, absent, rfl, isMissing, (Option.some.inj found).symm⟩
    | succ i => exact ih (by simpa using found)

end Parts

theorem staleReads_nil (captured : List String) (node : Expr) :
    staleReads [] captured node = [] := by
  induction node using Expr.children_induction with
  | node node ih =>
    by_cases isRead : ∃ span name, node = .read span name
    · obtain ⟨span, name, rfl⟩ := isRead
      simp [staleReads]
    · rw [staleReads_eq _ _ fun span name same => isRead ⟨span, name, same⟩]
      have nothing : unhidden [] node = [] := by cases node <;> rfl
      rw [nothing, List.flatten_eq_nil_iff]
      simpa using ih

theorem Parts.plain {defined names : List String} {seen : Nat → List String} {node : Expr}
    {rest : List Expr} {lists : List (List Diagnostic)} {absent : Diagnostic}
    (isMissing : IsMissing absent)
    (others : Parts defined names (fun _ => []) (fun i => seen (i + 1)) rest lists) :
    Parts defined names (fun _ => []) seen (node :: rest)
      (staleOf (Check.expr defined node absent (seen 0)).diagnostics :: lists) := by
  have part : Parts defined names (fun _ => []) seen (node :: rest) _ := .cons isMissing others
  rwa [staleReads_nil, List.nil_append] at part

theorem arguments_parts (defined names : List String) (parent : Expr) (args : List Expr) :
    ∀ (index : Nat) (start : List String), ∃ lists,
      Parts defined names (fun _ => []) (fun i => afterAll (args.take i) start) args lists ∧
        lists.flatten = staleOf (arguments defined parent index args start).diagnostics := by
  induction args with
  | nil =>
    intro index start
    exact ⟨[], .nil, by rw [arguments]; rfl⟩
  | cons arg rest ih =>
    intro index start
    obtain ⟨lists, parts, joined⟩ := ih (index + 1) (after arg start)
    refine ⟨_, .plain (missing_isMissing parent ("argument " ++ toString index)) parts, ?_⟩
    rw [List.flatten_cons, joined, arguments]
    simp only [staleOf_append, expr_names]
    rfl

theorem bodies_parts (defined names : List String) (parent : Expr) (params : List String)
    (body : List Expr) : ∀ (index : Nat) (stale : List String), ∃ lists,
      Parts defined names
          (fun i => (body.take i).reverse.filterMap (bodyName? params) ++ stale)
          (fun _ => params ++ names) body lists ∧
        lists.flatten = staleOf (bodies defined parent names params index stale body) := by
  induction body with
  | nil =>
    intro index stale
    exact ⟨[], .nil, by rw [bodies]; rfl⟩
  | cons node rest ih =>
    intro index stale
    obtain ⟨lists, parts, joined⟩ := ih (index + 1) ((bodyName? params node).toList ++ stale)
    have later (i : Nat) :
        ((node :: rest).take (i + 1)).reverse.filterMap (bodyName? params) ++ stale =
          (rest.take i).reverse.filterMap (bodyName? params) ++
            ((bodyName? params node).toList ++ stale) := by
      cases bound : bodyName? params node <;> simp [bound]
    simp only [← later] at parts
    refine ⟨_, .cons (missing_isMissing parent ("body expression " ++ toString index)) parts, ?_⟩
    rw [List.flatten_cons, joined, bodies]
    simp [staleOf_staleReads]

theorem expr_parts (defined names : List String) (node : Expr) {absent : Diagnostic}
    (isMissing : IsMissing absent) : ∃ lists,
      Parts defined names (lostIn node) (inside node names) node.children lists ∧
        lists.flatten = staleOf (Check.expr defined node absent names).diagnostics := by
  have ownNone : staleOf (own defined node absent names) = [] := staleOf_own isMissing
  cases node with
  | hole =>
    rw [expr_hole]
    exact ⟨[], .nil, ownNone.symm⟩
  | literal span value =>
    rw [Check.expr]
    exact ⟨[], .nil, rfl⟩
  | read span name =>
    refine ⟨[], .nil, ?_⟩
    rw [expr_read_diagnostics]
    exact ownNone.symm
  | define span name value =>
    rw [own] at ownNone
    refine ⟨_, .plain (missing_isMissing (.define span name value) "value") .nil, ?_⟩
    rw [expr_define]
    simp [ownNone]
  | binary span symbol left right =>
    rw [own] at ownNone
    refine ⟨_, .plain (missing_isMissing (.binary span symbol left right) "left operand")
      (.plain (missing_isMissing (.binary span symbol left right) "right operand") .nil), ?_⟩
    rw [Check.expr]
    simp only [staleOf_append, ownNone, expr_names]
    simp [inside, Expr.children, afterAll]
  | guarded span condition consequent =>
    refine ⟨_, .plain (missing_isMissing (.guarded span condition consequent) "condition")
      (.plain (missing_isMissing (.guarded span condition consequent) "then branch") .nil), ?_⟩
    rw [Check.expr]
    simp only [staleOf_append, expr_names]
    simp [inside, Expr.children, afterAll]
  | function span params body =>
    obtain ⟨lists, parts, joined⟩ := bodies_parts defined names (.function span params body)
      (params.filter (· ≠ "")) body 1 []
    simp only [List.append_nil] at parts
    refine ⟨lists, parts, ?_⟩
    rw [own, staleOf_append] at ownNone
    rw [joined, Check.expr]
    cases body with
    | nil => simpa [bodies] using ownNone
    | cons first rest => simpa using (List.append_eq_nil_iff.mp ownNone).1
  | call span callee args =>
    obtain ⟨lists, parts, joined⟩ := arguments_parts defined names (.call span callee args) args 1
      (after callee names)
    refine ⟨_, .plain (missing_isMissing (.call span callee args) "callee") parts, ?_⟩
    rw [List.flatten_cons, joined, Check.expr]
    simp only [staleOf_append, expr_names]
    rfl

theorem statements_parts (defined : List String) (statements : List Expr) :
    ∀ (index : Nat) (start : List String), ∃ lists,
      Parts defined [] (fun _ => []) (fun i => afterAll (statements.take i) start) statements
          lists ∧
        lists.flatten = staleOf (Check.statements defined index statements start) := by
  induction statements with
  | nil =>
    intro index start
    exact ⟨[], .nil, rfl⟩
  | cons statement rest ih =>
    intro index start
    obtain ⟨lists, parts, joined⟩ := ih (index + 1) (after statement start)
    have isMissing :
        IsMissing (.error .ast ("statement " ++ toString index ++ " is missing") none) :=
      ⟨rfl, rfl⟩
    refine ⟨_, .plain isMissing parts, ?_⟩
    rw [List.flatten_cons, joined, Check.statements]
    simp only [staleOf_append, expr_names]
    rfl

end Check

/-! ## The warnings of a program -/

def Expr.Named : Expr → Prop
  | .read _ name | .define _ name _ => name ≠ ""
  | .function _ params _ => "" ∉ params
  | _ => True

/-- The node is a function that has lost the name when it comes to an expression of its body: an
earlier one is a definition of the name, and the name is not a parameter. -/
def Expr.Loses (node : Expr) (index : Nat) (name : String) : Prop :=
  ∃ span params body, node = .function span params body ∧ name ∉ params ∧
    ∃ earlier < index, ∃ start value, body[earlier]? = some (.define start name value)

theorem Check.mem_lostIn {node : Expr} {index : Nat} {name : String} (named : node.Named) :
    name ∈ lostIn node index ↔ node.Loses index name := by
  cases node with
  | function span params body =>
    have kept : params.filter (· ≠ "") = params := by
      refine List.filter_eq_self.mpr fun param isParam => ?_
      have differs : param ≠ "" := fun empty => named (empty ▸ isParam)
      simpa using differs
    have binds (expr : Expr) : bodyName? params expr = some name ↔
        name ∉ params ∧ ∃ start value, expr = .define start name value := by
      cases expr <;> grind [bodyName?]
    have earlier (expr : Expr) :
        expr ∈ body.take index ↔ ∃ position < index, body[position]? = some expr := by
      simp [List.mem_iff_getElem?, List.getElem?_take]
    simp only [lostIn, Expr.Loses, kept, List.mem_filterMap, List.mem_reverse, binds, earlier,
      Expr.function.injEq]
    grind
  | _ => simp [lostIn, Expr.Loses]

structure BodyRead where
  function : NodePlace
  index : Nat
  read : NodePlace
  deriving DecidableEq, Repr

namespace BodyRead

/-- A name is read below an expression of the function's body, after the function has lost it. -/
def IsStale (program : Program) (stale : BodyRead) : Prop :=
  ∃ function name, program.node? stale.function = some function ∧
    function.Loses stale.index name ∧
      program.ReadsBelow (stale.function.child stale.index) stale.read name

def WarnedBy (program : Program) (stale : BodyRead) (d : Diagnostic) : Prop :=
  ∃ site, program.site? stale.function = some site ∧
    Check.WarnsOf program site.names stale.read d

end BodyRead

namespace Check
variable {program : Program}

theorem lost_listed {place : NodePlace} {node child : Expr} {names : List String} {i : Nat}
    (named : node.Named) (found : program.site? place = some ⟨node, names⟩)
    (isChild : node.children[i]? = some child) :
    Listed (BodyRead.WarnedBy program)
      (fun stale => (stale.function = place ∧ stale.index = i) ∧ stale.IsStale program)
      (staleReads (lostIn node i) names child) := by
  have isNode : program.node? place = some node := Program.node?_of_site found
  have reads := staleReads_listed names child (lostIn node i)
    ((Program.node?_child isNode i).trans isChild)
  refine reads.map (f := BodyRead.mk place i) ?_ ?_ ?_
  · intro first second same
    exact (BodyRead.mk.inj same).2.2
  · rintro ⟨function, index, read⟩
    constructor
    · rintro ⟨⟨rfl, rfl⟩, other, name, isOther, loses, below⟩
      obtain rfl : node = other := Option.some.inj (isNode.symm.trans isOther)
      exact ⟨read, ⟨name, (mem_lostIn named).mpr loses, below⟩, rfl⟩
    · rintro ⟨inner, ⟨name, isLost, below⟩, same⟩
      cases same
      exact ⟨⟨rfl, rfl⟩, node, name, isNode, (mem_lostIn named).mp isLost, below⟩
  · exact fun inner d warns => ⟨_, found, warns⟩

theorem expr_listed (defined : List String)
    (named : ∀ place node, program.node? place = some node → node.Named) (node : Expr) :
    ∀ {place : NodePlace} {names : List String} {absent : Diagnostic},
      program.site? place = some ⟨node, names⟩ → IsMissing absent →
        Listed (BodyRead.WarnedBy program)
          (fun stale => place.Holds stale.function ∧ stale.IsStale program)
          (staleOf (Check.expr defined node absent names).diagnostics) := by
  induction node using Expr.children_induction with
  | node node ih =>
    intro place names absent found isMissing
    have isNode : program.node? place = some node := Program.node?_of_site found
    obtain ⟨lists, parts, joined⟩ := expr_parts defined names node isMissing
    -- the node's own share of a child is what it has lost there; the rest is the child's
    have each (i : Nat) (list : List Diagnostic) (isList : lists[i]? = some list) :
        Listed (BodyRead.WarnedBy program)
          (fun stale => (stale.function = place ∧ stale.index = i ∨
            (place.child i).Holds stale.function) ∧ stale.IsStale program) list := by
      obtain ⟨child, other, isChild, otherMissing, rfl⟩ := parts.get isList
      have atChild : program.site? (place.child i) = some ⟨child, inside node names i⟩ := by
        rw [Program.site?_child found, Site.child?, isChild]
        rfl
      have here := lost_listed (named place node isNode) found isChild
      have below := ih child (List.mem_of_getElem? isChild) atChild otherMissing
      refine here.append below ?_ fun stale => or_and_right
      rintro stale ⟨⟨same, -⟩, -⟩ ⟨holds, -⟩
      exact NodePlace.child_not_holds place i (same ▸ holds)
    rw [← joined]
    refine (Listed.flatten ?_ each).congr fun stale => ?_
    · rintro i j stale ⟨⟨same, rfl⟩ | first, -⟩ ⟨⟨other, rfl⟩ | second, -⟩
      · rfl
      · exact absurd (same ▸ second) (NodePlace.child_not_holds place j)
      · exact absurd (other ▸ first) (NodePlace.child_not_holds place i)
      · exact first.child_inj second
    · rw [parts.length_eq]
      constructor
      · rintro ⟨holds, function, name, isFunction, loses, below⟩
        have isStale : stale.IsStale program := ⟨function, name, isFunction, loses, below⟩
        rcases holds.eq_or_child with same | ⟨i, lower⟩
        · obtain ⟨span, isRead⟩ := below.read
          have holdsRead := below.inside
          rw [same] at holdsRead
          exact ⟨stale.index, Program.child_lt_of_holds isNode holdsRead isRead, .inl ⟨same, rfl⟩,
            isStale⟩
        · exact ⟨i, Program.child_lt_of_holds isNode lower isFunction, .inr lower, isStale⟩
      · rintro ⟨i, -, ⟨same, -⟩ | lower, isStale⟩
        · exact ⟨same ▸ place.holds_self, isStale⟩
        · exact ⟨(place.holds_child i).trans lower, isStale⟩

theorem checkProgram_listed
    (named : ∀ place node, program.node? place = some node → node.Named) :
    Listed (BodyRead.WarnedBy program) (BodyRead.IsStale program)
      (staleOf (checkProgram (some program))) := by
  obtain ⟨lists, parts, joined⟩ :=
    statements_parts program.definedNames program.statements 1 []
  have each (i : Nat) (list : List Diagnostic) (isList : lists[i]? = some list) :
      Listed (BodyRead.WarnedBy program)
        (fun stale => stale.function.statement = i ∧ stale.IsStale program) list := by
    obtain ⟨statement, absent, isStatement, isMissing, rfl⟩ := parts.get isList
    have found : program.site? ⟨i, []⟩ =
        some ⟨statement, afterAll (program.statements.take i) []⟩ := by
      simp [Program.site?, isStatement, Site.descend?]
    rw [staleReads_nil, List.nil_append]
    refine (expr_listed program.definedNames named statement found isMissing).congr fun stale => ?_
    simp [NodePlace.Holds]
  rw [checkProgram, ← joined]
  refine (Listed.flatten ?_ each).congr fun stale => ?_
  · rintro i j stale ⟨rfl, -⟩ ⟨rfl, -⟩
    rfl
  · rw [parts.length_eq]
    constructor
    · rintro ⟨function, name, isFunction, loses, below⟩
      obtain ⟨site, isSite, -⟩ := Option.map_eq_some_iff.mp isFunction
      obtain ⟨statement, isStatement, -⟩ := Option.bind_eq_some_iff.mp isSite
      exact ⟨stale.function.statement, (List.getElem?_eq_some_iff.mp isStatement).1, rfl,
        function, name, isFunction, loses, below⟩
    · rintro ⟨i, -, -, isStale⟩
      exact isStale

end Check

/-- In a program where no name is empty, each stale read has one warning, which stands where the
name is read, and no other warning is about stale reads. -/
theorem checkProgram_warns_of_stale_reads (program : Program)
    (named : ∀ statement ∈ program.statements, statement.Everywhere Expr.Named) :
    ∃ reads : List BodyRead, reads.Nodup ∧ (∀ read, read ∈ reads ↔ read.IsStale program) ∧
      List.Forall₂
        (fun stale warning => ∃ span name, program.node? stale.read = some (.read span name) ∧
          warning.span = some span ∧ warning.severity = "warning")
        reads ((checkProgram (some program)).filter (·.code = "E_BODY_SCOPE")) := by
  have everywhere (place : NodePlace) (node : Expr) (found : program.node? place = some node) :
      node.Named := by
    obtain ⟨site, isSite, rfl⟩ := Option.map_eq_some_iff.mp found
    exact (Expr.everywhere_iff.mp
      (Program.site?_hereditary (Expr.everywhere_hereditary _) named isSite)).1
  obtain ⟨reads, nodup, members, told⟩ := Check.checkProgram_listed everywhere
  refine ⟨reads, nodup, members, told.imp fun stale warning warned => ?_⟩
  obtain ⟨site, -, span, name, isRead, rfl⟩ := warned
  exact ⟨span, name, isRead, rfl, rfl⟩

def losesTwice : Program :=
  let define := Expr.define Span.zero "x" (.literal Span.zero 1)
  let read (line : Int) := Expr.read ⟨"", line, 1⟩ "x"
  let inner := Expr.function Span.zero [] [define, read 1]
  let taking := Expr.function Span.zero ["x"] [read 2]
  ⟨Span.zero, [.function Span.zero [] [read 3, define, inner, taking]]⟩

theorem checkProgram_warns_of_stale_reads_losesTwice :
    (∀ statement ∈ losesTwice.statements, statement.Everywhere Expr.Named) ∧
      ∃ reads : List BodyRead, reads.Nodup ∧ (∀ read, read ∈ reads ↔ read.IsStale losesTwice) ∧
        reads.length = 2 := by
  have named : ∀ statement ∈ losesTwice.statements, statement.Everywhere Expr.Named := by
    simp [losesTwice, Expr.Everywhere, Expr.everywhereAll, Expr.Named]
  have warnings :
      ((checkProgram (some losesTwice)).filter (·.code = "E_BODY_SCOPE")).length = 2 := by
    decide
  obtain ⟨reads, nodup, members, told⟩ := checkProgram_warns_of_stale_reads losesTwice named
  exact ⟨named, reads, nodup, members, told.length_eq.trans warnings⟩

end Sapling
