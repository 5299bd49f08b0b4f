import Mathlib.Data.List.Perm.Subperm
import Sapling.Proofs.DocumentGrammar
import Sapling.Proofs.Unreadable

/-!
# Complaints about a document

Reading goes on after a fault and complains of the next one too.  Still every complaint stands at a
node of the tree that is read, and there are at most as many complaints as nodes.  A reading is
accounted for by a list of nodes (`Reading.Accounted`) when its complaints stand at nodes of the
list and are not more than these.  Parts that are read one after another are accounted for by their
lists one after another, so the whole comes down to this: the parts that an expression is read from
are different nodes of its mapping (`Fields.nodes_subperm`).
-/

set_option autoImplicit false

namespace Sapling

open Yaml (Node)

/-! ## The nodes of a tree -/

namespace Yaml.Node

mutual

/-- All nodes of a tree.  An alias is a leaf. -/
def nodes : Node → List Node
  | .scalar mark tag style text => [.scalar mark tag style text]
  | .reference mark name target => [.reference mark name target]
  | .sequence mark tag items => .sequence mark tag items :: nodesOfItems items
  | .mapping mark tag entries => .mapping mark tag entries :: nodesOfEntries entries

def nodesOfItems : List Node → List Node
  | [] => []
  | item :: rest => nodes item ++ nodesOfItems rest

def nodesOfEntries : List (Node × Node) → List Node
  | [] => []
  | (key, value) :: rest => nodes key ++ nodes value ++ nodesOfEntries rest

end

theorem nodesOfItems_eq (items : List Node) : nodesOfItems items = items.flatMap nodes := by
  induction items with
  | nil => rw [nodesOfItems, List.flatMap_nil]
  | cons item rest ih => rw [nodesOfItems, ih, List.flatMap_cons]

theorem nodesOfEntries_eq (entries : List (Node × Node)) :
    nodesOfEntries entries = entries.flatMap fun entry => entry.1.nodes ++ entry.2.nodes := by
  induction entries with
  | nil => rw [nodesOfEntries, List.flatMap_nil]
  | cons entry rest ih => rw [nodesOfEntries, ih, List.flatMap_cons]

theorem nodes_eq_cons (node : Node) : ∃ below, node.nodes = node :: below := by
  cases node with
  | scalar mark tag style text => exact ⟨[], by rw [nodes]⟩
  | reference mark name target => exact ⟨[], by rw [nodes]⟩
  | sequence mark tag items => exact ⟨_, by rw [nodes]⟩
  | mapping mark tag entries => exact ⟨_, by rw [nodes]⟩

theorem mem_nodes_self (node : Node) : node ∈ node.nodes := by
  obtain ⟨below, whole⟩ := node.nodes_eq_cons
  rw [whole]
  exact List.mem_cons_self

theorem one_le_nodes (node : Node) : 1 ≤ node.nodes.length := by
  obtain ⟨below, whole⟩ := node.nodes_eq_cons
  rw [whole, List.length_cons]
  omega

theorem two_mul_le_nodesOfEntries (entries : List (Node × Node)) :
    2 * entries.length ≤ (nodesOfEntries entries).length := by
  induction entries with
  | nil => exact Nat.zero_le _
  | cons entry rest ih =>
    obtain ⟨key, value⟩ := entry
    have keyNodes := key.one_le_nodes
    have valueNodes := value.one_le_nodes
    rw [nodesOfEntries, List.length_append, List.length_append, List.length_cons]
    omega

end Yaml.Node

/-! ## Readings and nodes -/

/-- The complaints stand at nodes of the list, and there are not more of them than of these. -/
structure Reading.Accounted {α : Type} (file : String) (nodes : List Node) (reading : Reading α) :
    Prop where
  located : ∀ d ∈ reading.diagnostics, ∃ node ∈ nodes, d.span = some (Span.ofNode file node)
  few : reading.diagnostics.length ≤ nodes.length

namespace Reading
variable {α β : Type} {file : String} {nodes more : List Node}

theorem accounted_pure (value : α) : (pure value).Accounted file nodes := ⟨nofun, Nat.zero_le _⟩

theorem accounted_one {value : Option α} {d : Diagnostic} {node : Node} (isNode : node ∈ nodes)
    (located : d.span = some (Span.ofNode file node)) :
    (⟨value, [d]⟩ : Reading α).Accounted file nodes where
  located := by
    intro other isOther
    rw [List.mem_singleton.mp isOther]
    exact ⟨node, isNode, located⟩
  few := List.length_pos_of_mem isNode

theorem Accounted.map {reading : Reading α} (accounted : reading.Accounted file nodes)
    (f : α → β) : (reading.map f).Accounted file nodes :=
  ⟨accounted.located, accounted.few⟩

theorem Accounted.both {left : Reading α} {right : Reading β}
    (first : left.Accounted file nodes) (second : right.Accounted file more) :
    (left.both right).Accounted file (nodes ++ more) where
  located := by
    intro d isIn
    rcases List.mem_append.mp isIn with earlier | later
    · obtain ⟨node, isNode, located⟩ := first.located d earlier
      exact ⟨node, List.mem_append_left more isNode, located⟩
    · obtain ⟨node, isNode, located⟩ := second.located d later
      exact ⟨node, List.mem_append_right nodes isNode, located⟩
  few := by
    have fewLeft := first.few
    have fewRight := second.few
    simp only [Reading.both, List.length_append]
    omega

theorem Accounted.mono {reading : Reading α} (accounted : reading.Accounted file nodes)
    (within : nodes.Subperm more) : reading.Accounted file more where
  located := by
    intro d isIn
    obtain ⟨node, isNode, located⟩ := accounted.located d isIn
    exact ⟨node, within.subset isNode, located⟩
  few := Nat.le_trans accounted.few within.length_le

theorem accounted_all {ι : Type} {items : List ι} {read : ι → Reading α} {nodesOf : ι → List Node}
    (each : ∀ item ∈ items, (read item).Accounted file (nodesOf item)) :
    (all (items.map read)).Accounted file (items.flatMap nodesOf) := by
  induction items with
  | nil => exact accounted_pure []
  | cons item rest ih =>
    obtain ⟨first, others⟩ := List.forall_mem_cons.mp each
    exact (first.both (ih others)).map _

theorem all_diagnostics (readings : List (Reading α)) :
    (all readings).diagnostics = readings.flatMap Reading.diagnostics := by
  induction readings with
  | nil => rfl
  | cons reading rest ih =>
    rw [List.flatMap_cons, ← ih]
    rfl

end Reading

/-! ## Parts that are no expressions -/

section Parts
variable (file : String) (node : Node)

theorem readNumber_accounted [Yaml.Library] : (readNumber file node).Accounted file node.nodes := by
  unfold readNumber
  split
  · split
    · split
      · exact Reading.accounted_pure _
      · exact Reading.accounted_pure _
      · exact Reading.accounted_one (Node.mem_nodes_self _) rfl
      · exact Reading.accounted_one (Node.mem_nodes_self _) rfl
    · exact Reading.accounted_one (Node.mem_nodes_self _) rfl
  · exact Reading.accounted_one (Node.mem_nodes_self _) rfl

theorem readName_accounted : (readName file node).Accounted file node.nodes := by
  unfold readName
  split
  · split
    · exact Reading.accounted_one (Node.mem_nodes_self _) rfl
    · exact Reading.accounted_pure _
  · exact Reading.accounted_one (Node.mem_nodes_self _) rfl

theorem readOperator_accounted : (readOperator file node).Accounted file node.nodes := by
  unfold readOperator
  split
  · split
    · exact Reading.accounted_pure _
    · exact Reading.accounted_one (Node.mem_nodes_self _) rfl
  · exact Reading.accounted_one (Node.mem_nodes_self _) rfl
  · exact Reading.accounted_one (Node.mem_nodes_self _) rfl

theorem readParams_accounted : (readParams file node).Accounted file node.nodes := by
  unfold readParams
  split
  · exact Reading.accounted_pure _
  · split
    · exact Reading.accounted_one (Node.mem_nodes_self _) rfl
    · rename_i mark tag items _
      have names := Reading.accounted_all fun item (_ : item ∈ items) =>
        readName_accounted file item
      rw [← Node.nodesOfItems_eq] at names
      refine names.mono ?_
      rw [Node.nodes]
      exact (List.sublist_cons_self _ _).subperm
    · exact Reading.accounted_one (Node.mem_nodes_self _) rfl

theorem notExpression_span :
    (notExpression file node).span = some (Span.ofNode file node) := by
  cases node <;> rfl

end Parts

/-! ## Keys -/

theorem Field.name_accounted [Yaml.Library] (file : String) (entries : List (Node × Node)) :
    ∀ named : List (String × Field),
      (∀ d ∈ (Field.name file (entries.map (Field.ofEntry file)) named).2,
        ∃ entry ∈ entries, d.span = some (Span.ofNode file entry.1)) ∧
      (Field.name file (entries.map (Field.ofEntry file)) named).2.length ≤ entries.length := by
  induction entries with
  | nil =>
    intro named
    exact ⟨nofun, Nat.le_refl 0⟩
  | cons entry rest ih =>
    intro named
    -- where the first key is at fault, one more complaint stands in front of the others
    have complained (message : String) :
        (∀ d ∈ nodeError file entry.1 message ::
            (Field.name file (rest.map (Field.ofEntry file)) named).2,
          ∃ other ∈ entry :: rest, d.span = some (Span.ofNode file other.1)) ∧
        (nodeError file entry.1 message ::
            (Field.name file (rest.map (Field.ofEntry file)) named).2).length ≤
          (entry :: rest).length := by
      obtain ⟨located, few⟩ := ih named
      refine ⟨List.forall_mem_cons.mpr ⟨⟨entry, List.mem_cons_self, rfl⟩, ?_⟩,
        Nat.succ_le_succ few⟩
      intro d isIn
      obtain ⟨other, isOther, at'⟩ := located d isIn
      exact ⟨other, List.mem_cons_of_mem _ isOther, at'⟩
    rw [List.map_cons, Field.name]
    split
    · split
      · exact complained _
      · obtain ⟨located, few⟩ := ih ((_, Field.ofEntry file entry) :: named)
        refine ⟨?_, Nat.le_succ_of_le few⟩
        intro d isIn
        obtain ⟨other, isOther, at'⟩ := located d isIn
        exact ⟨other, List.mem_cons_of_mem _ isOther, at'⟩
    · exact complained _

theorem keyErrors_accounted (file : String) (node : Node) (kind : NodeKind)
    (fields : List (String × Field)) :
    (∀ d ∈ keyErrors file node kind fields, d.span = some (Span.ofNode file node)) ∧
      (keyErrors file node kind fields).length ≤ kind.required.length + fields.length := by
  constructor
  · intro d isIn
    rcases List.mem_append.mp isIn with missing | unknown
    · obtain ⟨key, _, rfl⟩ := List.mem_map.mp missing
      rfl
    · obtain ⟨field, _, rfl⟩ := List.mem_map.mp unknown
      rfl
  · simp only [keyErrors, List.length_append, List.length_map]
    exact Nat.add_le_add (List.length_filter_le _ _) (List.length_filter_le _ _)

theorem NodeKind.required_length (kind : NodeKind) : kind.required.length ≤ 2 := by
  cases kind <;> decide

/-- The values of the fields are different nodes of the entries. -/
theorem Fields.nodes_subperm {entries : List (Node × Node)} {fields : List (String × Node)}
    (given : Fields entries fields) :
    (fields.flatMap fun field => field.2.nodes).Subperm (Node.nodesOfEntries entries) := by
  obtain ⟨order, perm, same⟩ := given
  have values : fields.map Prod.snd = order.map Prod.snd := by
    have seconds := congrArg (List.map Prod.snd) same
    simpa [Function.comp_def] using seconds.symm
  have within : ∀ some : List (Node × Node),
      (some.flatMap fun entry => entry.2.nodes).Sublist
        (some.flatMap fun entry => entry.1.nodes ++ entry.2.nodes) := by
    intro some
    induction some with
    | nil => exact List.Sublist.refl _
    | cons entry rest ih =>
      rw [List.flatMap_cons, List.flatMap_cons]
      exact (List.sublist_append_right _ _).append ih
  have reordered := perm.flatMap_right fun entry => entry.1.nodes ++ entry.2.nodes
  rw [Node.nodesOfEntries_eq]
  have sameNodes : fields.flatMap (fun field => field.2.nodes) =
      order.flatMap fun entry => entry.2.nodes := by
    calc fields.flatMap (fun field => field.2.nodes)
        = (fields.map Prod.snd).flatMap Node.nodes := by rw [List.flatMap_map]
      _ = order.flatMap fun entry => entry.2.nodes := by rw [values, List.flatMap_map]
  rw [sameNodes]
  exact (within order).subperm.trans reordered.subperm

section Keys
variable (file : String) (mark : Yaml.Mark) (tag : String) (entries : List (Node × Node))

theorem nodes_mapping : Node.nodes (.mapping mark tag entries) =
    .mapping mark tag entries :: Node.nodesOfEntries entries := by
  rw [Node.nodes]

variable [Yaml.Library]

theorem badKeys_accounted :
    (⟨none, (Field.name file (entries.map (Field.ofEntry file)) []).2⟩ : Reading Expr).Accounted
      file (Node.nodes (.mapping mark tag entries)) := by
  obtain ⟨located, few⟩ := Field.name_accounted file entries []
  rw [nodes_mapping]
  constructor
  · intro d isIn
    obtain ⟨entry, isEntry, stands⟩ := located d isIn
    refine ⟨entry.1, ?_, stands⟩
    rw [Node.nodesOfEntries_eq]
    apply List.mem_cons_of_mem
    refine List.mem_flatMap.mpr ⟨entry, isEntry, ?_⟩
    exact List.mem_append_left _ (Node.mem_nodes_self _)
  · have enough := Node.two_mul_le_nodesOfEntries entries
    rw [List.length_cons]
    exact Nat.le_trans few (by omega)

/-- Keys that are missing or unknown.  Where there is an entry, two missing keys do not outnumber
the nodes. -/
theorem wrongKeys_accounted (kind : NodeKind) (filled : entries ≠ []) :
    (⟨none, keyErrors file (.mapping mark tag entries) kind
      (Field.named (entries.map (Field.ofEntry file)))⟩ : Reading Expr).Accounted
        file (Node.nodes (.mapping mark tag entries)) := by
  obtain ⟨stand, least⟩ := keyErrors_accounted file (.mapping mark tag entries) kind
    (Field.named (entries.map (Field.ofEntry file)))
  constructor
  · intro d isIn
    exact ⟨_, Node.mem_nodes_self _, stand d isIn⟩
  · have enough := Node.two_mul_le_nodesOfEntries entries
    have some := List.length_pos_iff.mpr filled
    have required := kind.required_length
    simp only [Field.named, List.length_map] at least
    rw [nodes_mapping, List.length_cons]
    exact Nat.le_trans least (by omega)

end Keys

/-- Complaints about a tree are errors in the tree, each stands at a node of it, and there are at
most as many as nodes. -/
structure Complain (file : String) (tree : Node) (diagnostics : List Diagnostic) : Prop where
  errors : ∀ d ∈ diagnostics, d.code = "E_AST" ∧ d.isError = true
  located : ∀ d ∈ diagnostics, ∃ node ∈ tree.nodes, d.span = some (Span.ofNode file node)
  few : diagnostics.length ≤ tree.nodes.length

theorem Reading.Accounted.complain {α : Type} {file : String} {tree : Node} {reading : Reading α}
    (accounted : reading.Accounted file tree.nodes) (explained : reading.Explained) :
    Complain file tree reading.diagnostics :=
  ⟨explained.errors, accounted.located, accounted.few⟩

/-! ## Expressions -/

variable [Yaml.Library]

/-- The node is accounted for by its own tree, read as an expression and item by item. -/
structure Counted (file : String) (node : Node) : Prop where
  expr : (readExpr file node).Accounted file node.nodes
  items : (Reading.all (readOwnItems file node)).Accounted file node.nodes

theorem readList_accounted {file : String} {node : Node} (key : String) (word : Node)
    (counted : Counted file node) :
    (readList file key (some (Field.ofEntry file (word, node)))).Accounted file node.nodes := by
  unfold readList Field.ofEntry
  dsimp only
  split
  · exact Reading.accounted_pure _
  · split
    · exact Reading.accounted_one (Node.mem_nodes_self _) rfl
    · exact counted.items
    · exact Reading.accounted_one (Node.mem_nodes_self _) rfl

section Mappings
variable {file : String} {node : Node} {entries : List (Node × Node)}
  (each : ∀ entry ∈ entries, Counted file entry.2)
include each

theorem Fields.counted {fields : List (String × Node)} (given : Fields entries fields)
    {key : String} {value : Node} (isField : (key, value) ∈ fields) : Counted file value := by
  obtain ⟨word, -, isEntry⟩ := given.mem_entries isField
  exact each _ isEntry

theorem Fields.list_accounted {key other : String} {head : Node} {list : Option Node}
    (apart : key ≠ other) (own : Fields entries ((other, head) :: optionalField key list)) :
    (readList file key
      (Field.find? (Field.named (entries.map (Field.ofEntry file))) key)).Accounted file
        ((optionalField key list).flatMap fun field => field.2.nodes) := by
  cases list with
  | none =>
    rw [own.find?_eq_none file (by simpa [optionalField] using apart)]
    exact Reading.accounted_pure _
  | some part =>
    obtain ⟨word, found⟩ := own.find? file
      (by simpa [optionalField] using apart.symm) key (.tail _ (.head _))
    rw [found]
    have value := readList_accounted key word (own.counted each (.tail _ (.head _)))
    simpa [optionalField] using value

theorem readParts_accounted {kind : NodeKind} {extra : List String}
    {fields : List (String × Node)} (some : extra.Sublist kind.optional)
    (own : Fields entries fields)
    (keys : fields.map Prod.fst = kind.key :: (kind.required ++ extra)) :
    (readParts file node kind (Field.named (entries.map (Field.ofEntry file)))).Accounted file
      (fields.flatMap fun field => field.2.nodes) := by
  obtain ⟨⟨_, head⟩, rest, rfl, rfl, others⟩ := List.map_eq_cons_iff.mp keys
  have distinct : ((kind.key, head) :: rest).map Prod.fst |>.Nodup := by
    rw [keys]
    exact kind.allowed_nodup.sublist ((some.append_left kind.required).cons_cons kind.key)
  obtain ⟨_, found⟩ := own.find? file distinct kind.key (.head _)
  cases kind with
  | literal =>
    simp only [readParts, found, Option.map_some, Option.getD_some, Field.ofEntry]
    refine ((readNumber_accounted file head).map _).mono ?_
    exact (List.sublist_append_left _ _).subperm
  | read =>
    simp only [readParts, found, Option.map_some, Option.getD_some, Field.ofEntry]
    refine ((readName_accounted file head).map _).mono ?_
    exact (List.sublist_append_left _ _).subperm
  | define =>
    cases List.sublist_nil.mp some
    obtain ⟨⟨_, part⟩, rest, rfl, rfl, more⟩ := List.map_eq_cons_iff.mp others
    cases List.map_eq_nil_iff.mp more
    obtain ⟨_, value⟩ := own.find? file distinct "value" (.tail _ (.head _))
    have inner := (own.counted each (.tail _ (.head _))).expr
    simp only [readParts, found, value, Option.map_some, Option.getD_some, Field.ofEntry]
    simpa using ((readName_accounted file head).both inner).map _
  | binary =>
    cases List.sublist_nil.mp some
    obtain ⟨⟨_, first⟩, rest, rfl, rfl, more⟩ := List.map_eq_cons_iff.mp others
    obtain ⟨⟨_, second⟩, rest, rfl, rfl, last⟩ := List.map_eq_cons_iff.mp more
    cases List.map_eq_nil_iff.mp last
    obtain ⟨_, left⟩ := own.find? file distinct "left" (.tail _ (.head _))
    obtain ⟨_, right⟩ := own.find? file distinct "right" (.tail _ (.tail _ (.head _)))
    have inner := (own.counted each (.tail _ (.head _))).expr
    have outer := (own.counted each (.tail _ (.tail _ (.head _)))).expr
    simp only [readParts, found, left, right, Option.map_some, Option.getD_some, Field.ofEntry]
    simpa using ((readOperator_accounted file head).both (inner.both outer)).map _
  | guarded =>
    cases List.sublist_nil.mp some
    obtain ⟨⟨_, second⟩, rest, rfl, rfl, more⟩ := List.map_eq_cons_iff.mp others
    cases List.map_eq_nil_iff.mp more
    obtain ⟨_, consequent⟩ := own.find? file distinct "then" (.tail _ (.head _))
    have inner := (own.counted each (.head _)).expr
    have outer := (own.counted each (.tail _ (.head _))).expr
    have found : Field.find? (Field.named (entries.map (Field.ofEntry file))) "if" = _ := found
    simp only [readParts, found, consequent, Field.ofEntry]
    simpa using (inner.both outer).map _
  | function =>
    obtain ⟨list, rfl⟩ : ∃ list, rest = optionalField "body" list :=
      exists_optionalField (others ▸ some)
    have body := own.list_accounted each (by decide)
    simp only [readParts, found, Option.map_some, Option.getD_some, Field.ofEntry]
    exact ((readParams_accounted file head).both body).map _
  | call =>
    obtain ⟨list, rfl⟩ : ∃ list, rest = optionalField "args" list :=
      exists_optionalField (others ▸ some)
    have args := own.list_accounted each (by decide)
    have inner := (own.counted each (.head _)).expr
    have found : Field.find? (Field.named (entries.map (Field.ofEntry file))) "call" = _ := found
    simp only [readParts, found, Field.ofEntry]
    exact (inner.both args).map _

theorem readMapping_accounted (mark : Yaml.Mark) (tag : String) :
    (readMapping file (.mapping mark tag entries) (entries.map (Field.ofEntry file))).Accounted file
      (Node.nodes (.mapping mark tag entries)) := by
  have atNode : Node.mapping mark tag entries ∈ Node.nodes (.mapping mark tag entries) :=
    Node.mem_nodes_self _
  have badKeys := badKeys_accounted file mark tag entries
  unfold readMapping
  cases named : Field.name file (entries.map (Field.ofEntry file)) [] with
  | mk fields diagnostics =>
    rw [named] at badKeys
    cases diagnostics with
    | cons d rest => exact badKeys
    | nil =>
      obtain ⟨scalars, distinct, -, rfl⟩ := (Field.name_eq_clean_iff file).mp named
      simp only [List.reverse_nil, List.nil_append, List.isEmpty_nil, Bool.not_true,
        Bool.false_eq_true, if_false]
      split
      · exact Reading.accounted_one atNode rfl
      · rename_i kind one
        split
        · rename_i right
          rw [Field.kinds_named] at one
          obtain ⟨extra, some, perm⟩ := (distinct_keys_iff distinct kind).mp
            ⟨one, keyErrors_eq_nil_iff.mp right⟩
          obtain ⟨fields, own, keys⟩ :=
            (fields_iff file).mpr ⟨List.forall_mem_map.mp scalars, perm⟩
          refine (readParts_accounted each some own keys).mono ?_
          rw [nodes_mapping]
          exact own.nodes_subperm.trans (List.sublist_cons_self _ _).subperm
        · apply wrongKeys_accounted
          rintro rfl
          simp [Field.named] at one
      · exact Reading.accounted_one atNode rfl

end Mappings

mutual

theorem counted (file : String) : (node : Node) → Counted file node
  | .scalar mark tag style text => by
    refine ⟨?_, Reading.accounted_pure _⟩
    rw [readExpr]
    exact Reading.accounted_one (Node.mem_nodes_self _) (notExpression_span file _)
  | .reference mark name target => by
    refine ⟨?_, Reading.accounted_pure _⟩
    rw [readExpr]
    exact Reading.accounted_one (Node.mem_nodes_self _) (notExpression_span file _)
  | .sequence mark tag items => by
    constructor
    · rw [readExpr]
      exact Reading.accounted_one (Node.mem_nodes_self _) (notExpression_span file _)
    · rw [readOwnItems, Node.nodes]
      exact (readItems_accounted file items).mono (List.sublist_cons_self _ _).subperm
  | .mapping mark tag entries => by
    refine ⟨?_, Reading.accounted_pure _⟩
    rw [readExpr, readFields_eq_map]
    exact readMapping_accounted (countedAll file entries) mark tag

theorem countedAll (file : String) :
    (entries : List (Node × Node)) → ∀ entry ∈ entries, Counted file entry.2
  | [] => nofun
  | (key, value) :: rest => fun entry isIn => by
    rcases List.mem_cons.mp isIn with rfl | later
    · exact counted file value
    · exact countedAll file rest entry later

theorem readItems_accounted (file : String) : (items : List Node) →
    (Reading.all (readItems file items)).Accounted file (Node.nodesOfItems items)
  | [] => by
    rw [readItems, Node.nodesOfItems]
    exact Reading.accounted_pure []
  | item :: rest => by
    rw [readItems, Node.nodesOfItems]
    exact ((counted file item).expr.both (readItems_accounted file rest)).map _

end

/-! ## Documents -/

theorem readItems_eq_map (file : String) (items : List Node) :
    readItems file items = items.map (readExpr file) := by
  induction items with
  | nil => rw [readItems, List.map_nil]
  | cons item rest ih => rw [readItems, ih, List.map_cons]

theorem readRoot_accounted (file : String) (root : Node) :
    (readRoot file root).Accounted file root.nodes := by
  cases root with
  | sequence mark tag items => exact (counted file (.sequence mark tag items)).items
  | mapping mark tag entries => exact (counted file (.mapping mark tag entries)).expr.map _
  | _ => exact Reading.accounted_one (Node.mem_nodes_self _) rfl

def complaints (file : String) (document : Option Yaml.Document) : List Diagnostic :=
  match readDocument file document with
  | .ok _ => []
  | .error diagnostics => diagnostics

theorem complaints_eq (file : String) (root : Node) (anchored : List Node) :
    complaints file (some ⟨root, anchored⟩) = (readRoot file root).diagnostics := by
  unfold complaints readDocument
  dsimp only
  cases value : (readRoot file root).value with
  | none => rfl
  | some statements =>
    cases (readRoot file root).diagnostics with
    | nil => rfl
    | cons d rest => rfl

theorem complaints_ne_nil {file : String} {root : Node} {anchored : List Node}
    {diagnostics : List Diagnostic}
    (unread : readDocument file (some ⟨root, anchored⟩) = .error diagnostics) :
    diagnostics ≠ [] := by
  intro clean
  have silent : (readRoot file root).diagnostics = [] := by
    rw [← complaints_eq file root anchored, complaints, unread]
    exact clean
  obtain ⟨statements, value⟩ : ∃ statements, (readRoot file root).value = some statements := by
    apply Option.ne_none_iff_exists'.mp
    exact fun missing => (readRoot_explained file root).complains missing silent
  simp [readDocument, value, silent] at unread

theorem spells_of_silent {file : String} {node : Node}
    (silent : (readExpr file node).diagnostics = []) :
    ∃ expr, (readExpr file node).value = some expr ∧ Spells file node expr := by
  obtain ⟨expr, value⟩ : ∃ expr, (readExpr file node).value = some expr := by
    apply Option.ne_none_iff_exists'.mp
    exact fun missing => (readExpr_explained file node).complains missing silent
  refine ⟨expr, value, ((understood file node).expr expr).mp ?_⟩
  rw [Reading.pure, ← value, ← silent]

/-- Nothing of a document is passed over in silence.  A node gives an expression or a complaint, and
one that gives no complaint spells its expression in full.  The complaints about a list of
expressions are those about its items, each read as the only one. -/
theorem documents_accounted_for (file : String) :
    (∀ node : Node,
      ((readExpr file node).value = none → (readExpr file node).diagnostics ≠ []) ∧
      ((readExpr file node).diagnostics = [] →
        ∃ expr, (readExpr file node).value = some expr ∧ Spells file node expr) ∧
      Complain file node (readExpr file node).diagnostics) ∧
    (∀ (document : Option Yaml.Document) (program : Program),
      readDocument file document = .ok program → SpellsDocument file document program) ∧
    (∀ (root : Node) (anchored : List Node) (diagnostics : List Diagnostic),
      readDocument file (some ⟨root, anchored⟩) = .error diagnostics →
        diagnostics ≠ [] ∧ Complain file root diagnostics) ∧
    (∀ (mark : Yaml.Mark) (tag : String) (items anchored : List Node),
      complaints file (some ⟨.sequence mark tag items, anchored⟩) =
          items.flatMap (fun item => (readExpr file item).diagnostics) ∧
        complaints file (some ⟨.sequence mark tag items, anchored⟩) =
          items.flatMap fun item => complaints file (some ⟨.sequence mark tag [item], []⟩)) ∧
    ∀ (mark : Yaml.Mark) (tag : String) (entries : List (Node × Node)) (anchored : List Node),
      complaints file (some ⟨.mapping mark tag entries, anchored⟩) =
        (readExpr file (.mapping mark tag entries)).diagnostics := by
  have ofItems : ∀ (mark : Yaml.Mark) (tag : String) (items anchored : List Node),
      complaints file (some ⟨.sequence mark tag items, anchored⟩) =
        items.flatMap fun item => (readExpr file item).diagnostics := by
    intro mark tag items anchored
    rw [complaints_eq, readRoot, Reading.all_diagnostics, readItems_eq_map, List.flatMap_map]
  refine ⟨?_, ?_, ?_, ?_, ?_⟩
  · intro node
    have explained := readExpr_explained file node
    exact ⟨explained.complains, spells_of_silent, (counted file node).expr.complain explained⟩
  · intro document program read
    exact readDocument_eq_ok_iff.mp read
  · intro root anchored diagnostics unread
    refine ⟨complaints_ne_nil unread, ?_⟩
    have whole : diagnostics = (readRoot file root).diagnostics := by
      rw [← complaints_eq file root anchored, complaints, unread]
    rw [whole]
    exact (readRoot_accounted file root).complain (readRoot_explained file root)
  · intro mark tag items anchored
    refine ⟨ofItems mark tag items anchored, ?_⟩
    simp only [ofItems, List.flatMap_cons, List.flatMap_nil, List.append_nil]
  · intro mark tag entries anchored
    rw [complaints_eq]
    rfl

end Sapling
