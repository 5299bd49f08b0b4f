import Sapling.Proofs.Calls
import Sapling.Proofs.Decoded

/-!
# How much a document holds

A document has no more characters than bytes, its events are read in a number of steps that its
characters bound, and every node is the node of an event.  So no list in a document has more items
than there are steps (`Yaml.BoundsLists`), and the lists of a program are no longer than those of
the document it was read from (`readProgram_narrow`).
-/

set_option autoImplicit false

namespace Sapling

namespace Yaml

/-! ## Characters and events -/

theorem Input.decode_length (encoding : Encoding) (bytes : List UInt8) (skip used : Nat)
    (done : List Char) (held : Nat) (windows : List Nat) :
    (decode encoding bytes skip used done held windows).chars.length ≤
      done.length + bytes.length := by
  fun_induction decode encoding bytes skip used done held windows with
  | case1 => simp
  | case2 first rest skip used done held windows ih =>
    rw [List.length_cons]
    omega
  | case3 => simp
  | case4 => simp
  | case5 first rest used done held windows code width spelled fits windows' held' used' _ ih =>
    rw [List.length_cons] at ih ⊢
    omega
  | case6 => simp

theorem Input.ofBytes_length (bytes : List UInt8) :
    (ofBytes bytes).chars.length ≤ bytes.length := by
  have read (encoding : Encoding) (more : List UInt8) {rest : List UInt8} (used : Nat) :
      (decode encoding rest 0 used [] 0 []).chars.length ≤ (more ++ rest).length := by
    have decoded := decode_length encoding rest 0 used [] 0 []
    rw [List.length_nil] at decoded
    rw [List.length_append]
    omega
  have kept (read : Input) (drop : Bool) :
      (if drop then { read with windows := [] } else read).chars = read.chars := by
    cases drop <;> rfl
  unfold ofBytes
  dsimp only
  rw [kept]
  split
  · exact read _ [0xFF, 0xFE] 2
  · exact read _ [0xFE, 0xFF] 2
  · exact read _ [0xEF, 0xBB, 0xBF] 3
  · exact read _ [] 0

theorem Events.run_length (steps : Nat) : ∀ (done : List Event) (r : Reader),
    (run steps done r).list.length ≤ done.length + steps := by
  induction steps with
  | zero =>
    intro done r
    simp [run]
  | succ steps ih =>
    intro done r
    rw [run]
    split
    · simp
    · simp
    · rename_i event next _ _
      have more := ih (event :: done) next
      rw [List.length_cons] at more
      omega

theorem Events.ofInput_length (input : Input) :
    (ofInput input).list.length ≤ stepBound input.chars.length := by
  unfold ofInput
  split
  · exact Nat.zero_le _
  · split
    · exact Nat.zero_le _
    · exact Nat.zero_le _
    · have events := run_length (stepBound input.chars.length) []
      rw [List.length_nil, Nat.zero_add] at events
      exact events _

/-! ## Nodes -/

inductive Node.Narrow (width : Nat) : Node → Prop
  | scalar (mark : Mark) (tag : String) (style : ScalarStyle) (text : String) :
      Narrow width (.scalar mark tag style text)
  | reference (mark : Mark) (name : String) (target : Nat) :
      Narrow width (.reference mark name target)
  | sequence (mark : Mark) (tag : String) {items : List Node} (few : items.length ≤ width)
      (each : ∀ item ∈ items, Narrow width item) : Narrow width (.sequence mark tag items)
  | mapping (mark : Mark) (tag : String) {entries : List (Node × Node)}
      (keys : ∀ entry ∈ entries, Narrow width entry.1)
      (values : ∀ entry ∈ entries, Narrow width entry.2) : Narrow width (.mapping mark tag entries)

theorem pairUp_each {p : Node → Prop} {nodes : List Node} {done : List (Node × Node)}
    (each : ∀ node ∈ nodes, p node) (before : ∀ entry ∈ done, p entry.1 ∧ p entry.2) :
    ∀ entry ∈ pairUp nodes done, p entry.1 ∧ p entry.2 := by
  fun_induction pairUp nodes done with
  | case1 key value rest done ih =>
    obtain ⟨first, others⟩ := List.forall_mem_cons.mp each
    obtain ⟨second, others⟩ := List.forall_mem_cons.mp others
    exact ih others (List.forall_mem_cons.mpr ⟨⟨first, second⟩, before⟩)
  | case2 => exact fun entry isIn => before entry (List.mem_reverse.mp isIn)

/-- The nodes read so far are narrow, and no open collection has more of them than this. -/
structure Composer.Narrow (width count : Nat) (c : Composer) : Prop where
  root : ∀ node, c.root = some node → node.Narrow width
  opened : ∀ opened ∈ c.stack,
    opened.nodes.length ≤ count ∧ ∀ node ∈ opened.nodes, node.Narrow width

namespace Composer
variable {width count : Nat} {c next : Composer}

theorem Narrow.mono {more : Nat} (narrow : c.Narrow width count) (less : count ≤ more) :
    c.Narrow width more :=
  ⟨narrow.root, fun opened isIn =>
    ⟨Nat.le_trans (narrow.opened opened isIn).1 less, (narrow.opened opened isIn).2⟩⟩

theorem Narrow.add (narrow : c.Narrow width count) (anchor : Option Nat) {node : Node}
    (small : node.Narrow width) : (c.add anchor node).Narrow width (count + 1) := by
  obtain ⟨stack, root, places, complete, next⟩ := c
  have later := narrow.mono (Nat.le_succ count)
  cases stack with
  | nil =>
    cases anchor <;> exact ⟨fun other same => Option.some.inj same ▸ small, nofun⟩
  | cons top stack =>
    obtain ⟨first, others⟩ := List.forall_mem_cons.mp later.opened
    have filled : (node :: top.nodes).length ≤ count + 1 ∧
        ∀ other ∈ node :: top.nodes, other.Narrow width :=
      ⟨Nat.succ_le_succ (narrow.opened top List.mem_cons_self).1,
        List.forall_mem_cons.mpr ⟨small, first.2⟩⟩
    cases anchor <;> exact ⟨later.root, List.forall_mem_cons.mpr ⟨filled, others⟩⟩

theorem Narrow.place (narrow : c.Narrow width count) (anchor : Option String) :
    (c.place anchor).2.Narrow width count := by
  cases anchor with
  | none => exact narrow
  | some name => exact ⟨narrow.root, narrow.opened⟩

theorem Narrow.openNode (narrow : c.Narrow width count) (mark : Mark) (properties : Properties)
    (isMapping : Bool) (usual : String) :
    (c.openNode mark properties isMapping usual).Narrow width count := by
  have placed := narrow.place properties.anchor
  exact ⟨placed.root, List.forall_mem_cons.mpr ⟨⟨Nat.zero_le _, nofun⟩, placed.opened⟩⟩

theorem Narrow.closeNode (narrow : c.Narrow width count) (few : count ≤ width) :
    c.closeNode.Narrow width (count + 1) := by
  obtain ⟨stack, root, places, complete, next⟩ := c
  cases stack with
  | nil => exact narrow.mono (Nat.le_succ count)
  | cons top stack =>
    obtain ⟨⟨length, each⟩, others⟩ := List.forall_mem_cons.mp narrow.opened
    have reversed : ∀ node ∈ top.nodes.reverse, node.Narrow width :=
      fun node isIn => each node (List.mem_reverse.mp isIn)
    have closed : top.close.Narrow width := by
      unfold OpenNode.close
      split
      · have paired : ∀ entry ∈ pairUp top.nodes.reverse [],
            entry.1.Narrow width ∧ entry.2.Narrow width :=
          pairUp_each reversed fun entry isIn => absurd isIn List.not_mem_nil
        exact .mapping _ _ (fun entry isIn => (paired entry isIn).1)
          fun entry isIn => (paired entry isIn).2
      · refine .sequence _ _ ?_ reversed
        rw [List.length_reverse]
        exact Nat.le_trans length few
    have below : Composer.Narrow width count ⟨stack, root, places, complete, next⟩ :=
      ⟨narrow.root, others⟩
    exact below.add top.anchor closed

-- an event gives at most one node to the innermost open collection
theorem Narrow.step (narrow : c.Narrow width count) (few : count ≤ width) {tagOf : String → String}
    {event : Event} (stepped : c.step tagOf event = .ok next) : next.Narrow width (count + 1) := by
  cases event with
  | reference mark name =>
    rw [Composer.step] at stepped
    split at stepped
    · cases stepped
      exact narrow.add none (.reference mark name _)
    · cases stepped
  | scalar mark properties style text =>
    cases stepped
    exact (narrow.place properties.anchor).add _ (.scalar ..)
  | sequenceStart mark properties =>
    cases stepped
    exact (narrow.openNode mark properties false _).mono (Nat.le_succ count)
  | mappingStart mark properties =>
    cases stepped
    exact (narrow.openNode mark properties true _).mono (Nat.le_succ count)
  | sequenceEnd =>
    cases stepped
    exact narrow.closeNode few
  | mappingEnd =>
    cases stepped
    exact narrow.closeNode few
  | documentEnd =>
    cases stepped
    exact narrow.mono (Nat.le_succ count)

theorem Narrow.run {tagOf : String → String} {failure : Option Error} {events : List Event} :
    ∀ {count : Nat} {c : Composer}, c.Narrow width count → count + events.length ≤ width →
      Composer.run tagOf failure events c = .ok next → ∀ node, next.root = some node →
        node.Narrow width := by
  induction events with
  | nil =>
    intro count c narrow _ ran
    cases failure with
    | some error => cases ran
    | none =>
      cases ran
      exact narrow.root
  | cons event rest ih =>
    intro count c narrow few ran
    rw [List.length_cons] at few
    rw [Composer.run] at ran
    split at ran
    · rename_i stepped
      exact ih (narrow.step (by omega) stepped) (by omega) ran
    · cases ran

end Composer

theorem Document.ofEvents_narrow {tagOf : String → String} {events : Events} {document : Document}
    {width : Nat} (few : events.list.length ≤ width)
    (composed : Document.ofEvents tagOf events = .ok (some document)) :
    document.root.Narrow width := by
  unfold Document.ofEvents at composed
  have start : Composer.Narrow width 0 ⟨[], none, [], [], 0⟩ := ⟨nofun, nofun⟩
  cases ran : Composer.run tagOf events.failure events.list ⟨[], none, [], [], 0⟩ with
  | error error =>
    rw [ran] at composed
    cases composed
  | ok c =>
    rw [ran] at composed
    obtain ⟨root, isRoot, rfl⟩ := Option.map_eq_some_iff.mp (Except.ok.inj composed)
    exact start.run (Nat.le_trans (Nat.le_of_eq (Nat.zero_add _)) few) ran root isRoot

/-! ## Libraries -/

def widest : Nat := 2 ^ 127

/-- A library in whose documents no list is longer than `widest`, as long as the number of bytes is
one that a word holds. -/
class BoundsLists [Library] : Prop where
  narrow {bytes : List UInt8} {document : Document}
    (parsed : Library.parse (.ok bytes) = .ok (some document))
    (held : bytes.length < Number.wordHalf) : document.root.Narrow widest

instance : BoundsLists where
  narrow {bytes document} parsed held := by
    refine Document.ofEvents_narrow ?_ parsed
    have events := Events.ofInput_length (Input.ofBytes bytes)
    have chars := Input.ofBytes_length bytes
    unfold Events.stepBound at events
    unfold Number.wordHalf at held
    unfold widest
    omega

end Yaml

open Yaml (Node)

/-! ## Programs -/

theorem Yaml.Node.Narrow.field {width : Nat} {mark : Yaml.Mark} {tag : String}
    {entries : List (Node × Node)} (narrow : (Node.mapping mark tag entries).Narrow width)
    {fields : List (String × Node)} (spelled : Fields entries fields) :
    ∀ field ∈ fields, field.2.Narrow width := by
  intro field isField
  obtain ⟨order, perm, same⟩ := spelled
  have isIn : (some field.1, field.2) ∈ order.map fun entry => (keyText? entry.1, entry.2) :=
    same ▸ List.mem_map_of_mem isField
  obtain ⟨entry, isEntry, named⟩ := List.mem_map.mp isIn
  cases narrow with
  | mapping mark tag keys values =>
    have value := values entry (perm.mem_iff.mp isEntry)
    rwa [(Prod.mk.inj named).2] at value

theorem narrow_optionalField {width : Nat} {key : String} {list : Option Node}
    (narrow : ∀ field ∈ optionalField key list, field.2.Narrow width) :
    ∀ node ∈ list, node.Narrow width := by
  rintro node isNode
  cases isNode
  exact narrow (key, node) List.mem_cons_self

section Spelled
variable [Yaml.Library] {file : String} {width : Nat}

/-- The expression is spelled by a node without long lists. -/
def Expr.SpelledWithin (file : String) (width : Nat) (expr : Expr) : Prop :=
  ∃ node, Spells file node expr ∧ node.Narrow width

theorem SpellsAll.length_eq {items : List Node} {exprs : List Expr}
    (spelled : SpellsAll file items exprs) : exprs.length = items.length := by
  induction exprs generalizing items with
  | nil =>
    cases spelled
    rfl
  | cons expr rest ih =>
    cases spelled with
    | cons first others => rw [List.length_cons, List.length_cons, ih others]

theorem SpellsAll.within {items : List Node} {exprs : List Expr}
    (spelled : SpellsAll file items exprs) (narrow : ∀ item ∈ items, item.Narrow width) :
    ∀ expr ∈ exprs, expr.SpelledWithin file width := by
  induction exprs generalizing items with
  | nil => nofun
  | cons expr rest ih =>
    cases spelled with
    | cons first others =>
      obtain ⟨small, smaller⟩ := List.forall_mem_cons.mp narrow
      exact List.forall_mem_cons.mpr ⟨⟨_, first, small⟩, ih others smaller⟩

theorem SpellsList.within {list : Option Node} {exprs : List Expr}
    (spelled : SpellsList file list exprs) (narrow : ∀ node ∈ list, node.Narrow width) :
    exprs.length ≤ width ∧ ∀ expr ∈ exprs, expr.SpelledWithin file width := by
  cases spelled with
  | absent => exact ⟨Nat.zero_le _, nofun⟩
  | nothing null => exact ⟨Nat.zero_le _, nofun⟩
  | list mark tag each =>
    cases narrow _ rfl with
    | sequence mark tag few small => exact ⟨each.length_eq ▸ few, each.within small⟩

theorem Expr.spelledWithin_hereditary : Hereditary (Expr.SpelledWithin file width) := by
  rintro expr ⟨node, spelled, narrow⟩
  cases spelled with
  | literal fields number => nofun
  | read fields named => nofun
  | define fields named value =>
    obtain ⟨_, others⟩ := List.forall_mem_cons.mp (narrow.field fields)
    exact List.forall_mem_cons.mpr ⟨⟨_, value, others _ List.mem_cons_self⟩, nofun⟩
  | binary fields operates left right =>
    obtain ⟨_, others⟩ := List.forall_mem_cons.mp (narrow.field fields)
    obtain ⟨first, others⟩ := List.forall_mem_cons.mp others
    exact List.forall_mem_cons.mpr ⟨⟨_, left, first⟩,
      List.forall_mem_cons.mpr ⟨⟨_, right, others _ List.mem_cons_self⟩, nofun⟩⟩
  | guarded fields tested then_ =>
    obtain ⟨first, others⟩ := List.forall_mem_cons.mp (narrow.field fields)
    exact List.forall_mem_cons.mpr ⟨⟨_, tested, first⟩,
      List.forall_mem_cons.mpr ⟨⟨_, then_, others _ List.mem_cons_self⟩, nofun⟩⟩
  | function fields named body =>
    obtain ⟨_, others⟩ := List.forall_mem_cons.mp (narrow.field fields)
    exact (body.within (narrow_optionalField others)).2
  | call fields calls args =>
    obtain ⟨callee, others⟩ := List.forall_mem_cons.mp (narrow.field fields)
    exact List.forall_mem_cons.mpr
      ⟨⟨_, calls, callee⟩, (args.within (narrow_optionalField others)).2⟩

theorem Expr.spelledWithin_calls : NarrowCalls (Expr.SpelledWithin file width) width := by
  rintro place callee args ⟨node, spelled, narrow⟩
  cases spelled with
  | call fields calls args =>
    obtain ⟨_, others⟩ := List.forall_mem_cons.mp (narrow.field fields)
    exact (args.within (narrow_optionalField others)).1

theorem SpellsDocument.within {document : Option Yaml.Document} {program : Program}
    (spelled : SpellsDocument file document program) (pos : 1 ≤ width)
    (narrow : ∀ document' ∈ document, document'.root.Narrow width) :
    program.statements.length ≤ width ∧
      ∀ statement ∈ program.statements, statement.SpelledWithin file width := by
  cases spelled with
  | absent => exact ⟨Nat.zero_le _, nofun⟩
  | single anchored spelled =>
    exact ⟨pos, List.forall_mem_cons.mpr ⟨⟨_, spelled, narrow _ rfl⟩, nofun⟩⟩
  | list mark tag anchored each =>
    exact SpellsList.within (.list mark tag each) fun node isNode => by
      cases isNode
      exact narrow _ rfl

variable [Yaml.BoundsLists]

theorem readProgram_narrow {file : String} {bytes : List UInt8} {program : Program}
    (read : readProgram file bytes = .ok program) (held : bytes.length < Number.wordHalf) :
    program.Narrow Yaml.widest := by
  unfold readProgram at read
  split at read
  · rename_i document parsed
    -- no alias is followed, so the nodes of the program are those of the tree itself
    have narrow : ∀ held ∈ document, held.root.Narrow Yaml.widest := by
      rintro root isRoot
      rw [Option.mem_def.mp isRoot] at parsed
      exact Yaml.BoundsLists.narrow parsed held
    have spelled := (readDocument_eq_ok_iff.mp read).within (by decide) narrow
    exact ⟨spelled.1, fun place callee args contains => Expr.spelledWithin_calls place callee args
      (contains.of_hereditary Expr.spelledWithin_hereditary spelled.2)⟩
  · cases read

end Spelled

end Sapling
