import Mathlib.Data.List.Perm.Basic
import Mathlib.Data.List.Forall2
import Sapling.Reading

/-!
# The grammar of documents

`SpellsDocument` says which documents spell which programs, without saying how they are read.  A
node spells an expression when its entries, in some order, are the fields of one kind of expression
and their values spell its parts.  There is no rule for an alias, nor for a key that is not a
scalar, is there twice or belongs to no field.

A document is read as a program exactly when it spells it (`readDocument_eq_ok_iff`).  Reading goes
through three stages, each with its own characterisation: the keys are collected
(`Field.name_eq_clean_iff`), the kind is found and the keys are compared with those it wants
(`distinct_keys_iff`), and the parts are read.
-/

set_option autoImplicit false

namespace Sapling

open Yaml (Node)

/-! ## What nodes spell -/

section Spelling
variable [Yaml.Library]

def keyText? : Node → Option String
  | .scalar _ _ _ text => some text
  | _ => none

/-- The entries, put in some order, have these keys and values. -/
def Fields (entries : List (Node × Node)) (fields : List (String × Node)) : Prop :=
  ∃ order : List (Node × Node), order.Perm entries ∧
    order.map (fun entry => (keyText? entry.1, entry.2)) =
      fields.map fun field => (some field.1, field.2)

inductive SpellsNumber : Node → Float → Prop
  | integer {mark : Yaml.Mark} {tag : String} {style : Yaml.ScalarStyle} {text : String}
      {value : Int} (numeric : tag = "!!int" ∨ tag = "!!float")
      (resolved : Yaml.Library.resolve tag text = .ok (.integer value)) :
      SpellsNumber (.scalar mark tag style text) (Number.ofInt value)
  | float {mark : Yaml.Mark} {tag : String} {style : Yaml.ScalarStyle} {text : String}
      {value : Float} (numeric : tag = "!!int" ∨ tag = "!!float")
      (resolved : Yaml.Library.resolve tag text = .ok (.float value)) :
      SpellsNumber (.scalar mark tag style text) value

inductive SpellsName : Node → String → Prop
  | scalar (mark : Yaml.Mark) (tag : String) (style : Yaml.ScalarStyle) {text : String}
      (nonempty : text ≠ "") : SpellsName (.scalar mark tag style text) text

inductive SpellsOperator : Node → String → Prop
  | scalar (mark : Yaml.Mark) (tag : String) (style : Yaml.ScalarStyle) (op : Operator) :
      SpellsOperator (.scalar mark tag style op.symbol) op.symbol

inductive SpellsNothing : Node → Prop
  | null (mark : Yaml.Mark) (style : Yaml.ScalarStyle) (text : String) :
      SpellsNothing (.scalar mark "!!null" style text)

inductive SpellsParams : Node → List String → Prop
  | nothing {node : Node} (null : SpellsNothing node) : SpellsParams node []
  | list (mark : Yaml.Mark) (tag : String) {items : List Node} {params : List String}
      (names : List.Forall₂ SpellsName items params) :
      SpellsParams (.sequence mark tag items) params

def optionalField (key : String) (value : Option Node) : List (String × Node) :=
  value.toList.map fun node => (key, node)

mutual

/-- The expression that a mapping spells stands where the mapping stands. -/
inductive Spells (file : String) : Node → Expr → Prop
  | literal {mark : Yaml.Mark} {tag : String} {entries : List (Node × Node)} {number : Node}
      {value : Float} (fields : Fields entries [("lit", number)])
      (spelled : SpellsNumber number value) :
      Spells file (.mapping mark tag entries)
        (.literal (Span.ofNode file (.mapping mark tag entries)) value)
  | read {mark : Yaml.Mark} {tag : String} {entries : List (Node × Node)} {word : Node}
      {name : String} (fields : Fields entries [("get", word)]) (named : SpellsName word name) :
      Spells file (.mapping mark tag entries)
        (.read (Span.ofNode file (.mapping mark tag entries)) name)
  | define {mark : Yaml.Mark} {tag : String} {entries : List (Node × Node)} {word part : Node}
      {name : String} {value : Expr} (fields : Fields entries [("let", word), ("value", part)])
      (named : SpellsName word name) (spelled : Spells file part value) :
      Spells file (.mapping mark tag entries)
        (.define (Span.ofNode file (.mapping mark tag entries)) name value)
  | binary {mark : Yaml.Mark} {tag : String} {entries : List (Node × Node)}
      {operator first second : Node} {symbol : String} {left right : Expr}
      (fields : Fields entries [("op", operator), ("left", first), ("right", second)])
      (operates : SpellsOperator operator symbol) (leftSpelled : Spells file first left)
      (rightSpelled : Spells file second right) :
      Spells file (.mapping mark tag entries)
        (.binary (Span.ofNode file (.mapping mark tag entries)) symbol left right)
  | guarded {mark : Yaml.Mark} {tag : String} {entries : List (Node × Node)}
      {first second : Node} {condition consequent : Expr}
      (fields : Fields entries [("if", first), ("then", second)])
      (tested : Spells file first condition) (spelled : Spells file second consequent) :
      Spells file (.mapping mark tag entries)
        (.guarded (Span.ofNode file (.mapping mark tag entries)) condition consequent)
  | function {mark : Yaml.Mark} {tag : String} {entries : List (Node × Node)} {names : Node}
      {list : Option Node} {params : List String} {body : List Expr}
      (fields : Fields entries (("fn", names) :: optionalField "body" list))
      (named : SpellsParams names params) (spelled : SpellsList file list body) :
      Spells file (.mapping mark tag entries)
        (.function (Span.ofNode file (.mapping mark tag entries)) params body)
  | call {mark : Yaml.Mark} {tag : String} {entries : List (Node × Node)} {called : Node}
      {list : Option Node} {callee : Expr} {args : List Expr}
      (fields : Fields entries (("call", called) :: optionalField "args" list))
      (calls : Spells file called callee) (spelled : SpellsList file list args) :
      Spells file (.mapping mark tag entries)
        (.call (Span.ofNode file (.mapping mark tag entries)) callee args)

/-- A list of expressions that may be left out or be nothing. -/
inductive SpellsList (file : String) : Option Node → List Expr → Prop
  | absent : SpellsList file none []
  | nothing {node : Node} (null : SpellsNothing node) : SpellsList file (some node) []
  | list (mark : Yaml.Mark) (tag : String) {items : List Node} {exprs : List Expr}
      (each : SpellsAll file items exprs) :
      SpellsList file (some (.sequence mark tag items)) exprs

inductive SpellsAll (file : String) : List Node → List Expr → Prop
  | nil : SpellsAll file [] []
  | cons {node : Node} {rest : List Node} {expr : Expr} {exprs : List Expr}
      (first : Spells file node expr) (others : SpellsAll file rest exprs) :
      SpellsAll file (node :: rest) (expr :: exprs)

end

/-- A program is spelled by a document that is not there, or whose root is a list of statements or
the only statement. -/
inductive SpellsDocument (file : String) : Option Yaml.Document → Program → Prop
  | absent : SpellsDocument file none ⟨⟨file, 1, 1⟩, []⟩
  | single {root : Node} (anchored : List Node) {statement : Expr}
      (spelled : Spells file root statement) :
      SpellsDocument file (some ⟨root, anchored⟩) ⟨⟨file, 1, 1⟩, [statement]⟩
  | list (mark : Yaml.Mark) (tag : String) {items : List Node} (anchored : List Node)
      {statements : List Expr} (each : SpellsAll file items statements) :
      SpellsDocument file (some ⟨.sequence mark tag items, anchored⟩) ⟨⟨file, 1, 1⟩, statements⟩

end Spelling

/-! ## Readings that give a value -/

namespace Reading
variable {α β : Type}

theorem fail_ne_pure (diagnostic : Diagnostic) (value : α) : fail diagnostic ≠ pure value := by
  simp [fail, pure]

theorem map_eq_pure {f : α → β} {reading : Reading α} {value : β} :
    reading.map f = pure value ↔ ∃ a, reading = pure a ∧ f a = value := by
  rcases reading with ⟨found, diagnostics⟩
  cases found with
  | none => simp [map, pure]
  | some a =>
    constructor
    · intro given
      simp only [map, pure, Option.map_some, mk.injEq, Option.some.injEq] at given
      exact ⟨a, by rw [given.2]; rfl, given.1⟩
    · rintro ⟨b, given, rfl⟩
      rw [given]
      rfl

theorem both_eq_pure {left : Reading α} {right : Reading β} {a : α} {b : β} :
    left.both right = pure (a, b) ↔ left = pure a ∧ right = pure b := by
  rcases left with ⟨first, _⟩
  rcases right with ⟨second, _⟩
  cases first <;> cases second <;> simp [both, pure, and_assoc, and_left_comm]

theorem all_eq_pure {readings : List (Reading α)} :
    ∀ {values : List α}, all readings = pure values ↔
      List.Forall₂ (fun reading value => reading = pure value) readings values := by
  induction readings with
  | nil =>
    intro values
    simp [all, pure, eq_comm]
  | cons reading rest ih =>
    intro values
    rw [all, map_eq_pure]
    constructor
    · rintro ⟨⟨a, as⟩, both, rfl⟩
      obtain ⟨first, others⟩ := both_eq_pure.mp both
      exact .cons first (ih.mp others)
    · intro each
      cases each with
      | cons first others => exact ⟨(_, _), both_eq_pure.mpr ⟨first, ih.mpr others⟩, rfl⟩

end Reading

/-! ## Parts that are no expressions -/

theorem readNumber_eq_pure_iff [Yaml.Library] {file : String} {node : Node} {value : Float} :
    readNumber file node = .pure value ↔ SpellsNumber node value := by
  constructor
  · intro given
    cases node with
    | scalar mark tag style text =>
      unfold readNumber at given
      dsimp only at given
      split at given
      · rename_i numeric
        split at given
        · rename_i resolved
          cases given
          exact .integer numeric resolved
        · rename_i resolved
          cases given
          exact .float numeric resolved
        · exact absurd given (Reading.fail_ne_pure _ _)
        · exact absurd given (Reading.fail_ne_pure _ _)
      · exact absurd given (Reading.fail_ne_pure _ _)
    | _ => exact absurd given (Reading.fail_ne_pure _ _)
  · intro spelled
    cases spelled with
    | integer numeric resolved => simp only [readNumber, if_pos numeric, resolved]
    | float numeric resolved => simp only [readNumber, if_pos numeric, resolved]

theorem readName_eq_pure_iff {file : String} {node : Node} {name : String} :
    readName file node = .pure name ↔ SpellsName node name := by
  constructor
  · intro given
    cases node with
    | scalar mark tag style text =>
      unfold readName at given
      dsimp only at given
      split at given
      · exact absurd given (Reading.fail_ne_pure _ _)
      · rename_i nonempty
        cases given
        exact .scalar mark tag style (by simpa using nonempty)
    | _ => exact absurd given (Reading.fail_ne_pure _ _)
  · intro spelled
    cases spelled with
    | scalar mark tag style nonempty => simp [readName, nonempty]

theorem readOperator_eq_pure_iff {file : String} {node : Node} {symbol : String} :
    readOperator file node = .pure symbol ↔ SpellsOperator node symbol := by
  constructor
  · intro given
    cases node with
    | scalar mark tag style text =>
      unfold readOperator at given
      dsimp only at given
      split at given
      · rename_i known
        cases given
        obtain ⟨op, found⟩ := Option.isSome_iff_exists.mp known
        rw [Operator.ofSymbol?_eq_some_iff.mp found]
        exact .scalar mark tag style op
      · exact absurd given (Reading.fail_ne_pure _ _)
    | reference mark name target =>
      have silent := congrArg Reading.diagnostics given
      cases silent
    | _ => exact absurd given (Reading.fail_ne_pure _ _)
  · intro spelled
    cases spelled with
    | scalar mark tag style op => simp [readOperator, Operator.ofSymbol?_symbol]

theorem isNull_iff {node : Node} : isNull node = true ↔ SpellsNothing node := by
  constructor
  · intro null
    cases node with
    | scalar mark tag style text =>
      have same : tag = "!!null" := by simpa [isNull] using null
      subst same
      exact .null mark style text
    | _ => simp [isNull] at null
  · rintro ⟨mark, style, text⟩
    simp [isNull]

theorem readParams_eq_pure_iff {file : String} {node : Node} {params : List String} :
    readParams file node = .pure params ↔ SpellsParams node params := by
  unfold readParams
  split
  · rename_i null
    constructor
    · intro given
      cases given
      exact .nothing (isNull_iff.mp null)
    · intro spelled
      cases spelled with
      | nothing => rfl
      | list mark tag names => simp [isNull] at null
  · rename_i notNull
    constructor
    · intro given
      cases node with
      | sequence mark tag items =>
        rw [Reading.all_eq_pure, List.forall₂_map_left_iff] at given
        exact .list mark tag (given.imp fun node name => readName_eq_pure_iff.mp)
      | _ => exact absurd given (Reading.fail_ne_pure _ _)
    · intro spelled
      cases spelled with
      | nothing null => exact absurd (isNull_iff.mpr null) notNull
      | list mark tag names =>
        rw [Reading.all_eq_pure, List.forall₂_map_left_iff]
        exact names.imp fun node name => readName_eq_pure_iff.mpr

/-! ## Keys -/

theorem NodeKind.ofKey?_eq_some_iff {key : String} {kind : NodeKind} :
    NodeKind.ofKey? key = some kind ↔ key = kind.key := by
  constructor
  · intro found
    unfold NodeKind.ofKey? at found
    repeat' split at found
    all_goals first
      | cases found; assumption
      | cases found
  · rintro rfl
    cases kind <;> rfl

theorem NodeKind.ofKey?_field {kind : NodeKind} {key : String}
    (field : key ∈ kind.required ++ kind.optional) : NodeKind.ofKey? key = none := by
  revert key
  cases kind <;> decide

theorem NodeKind.allowed_nodup (kind : NodeKind) : kind.allowed.Nodup := by
  cases kind <;> decide

/-- Distinct keys name one kind and are those it wants exactly if they are its own key, all the keys
it requires and some of those it allows besides, in any order. -/
theorem distinct_keys_iff {keys : List String} (distinct : keys.Nodup) (kind : NodeKind) :
    (keys.filterMap NodeKind.ofKey? = [kind] ∧ (∀ key ∈ kind.required, key ∈ keys) ∧
      ∀ key ∈ keys, key ∈ kind.allowed) ↔
    ∃ extra, extra.Sublist kind.optional ∧
      keys.Perm (kind.key :: (kind.required ++ extra)) := by
  have wanted (extra : List String) (some : extra.Sublist kind.optional) :
      (kind.key :: (kind.required ++ extra)).Sublist kind.allowed :=
    (some.append_left kind.required).cons_cons kind.key
  constructor
  · rintro ⟨one, required, allowed⟩
    let extra := kind.optional.filter (· ∈ keys)
    have some : extra.Sublist kind.optional := List.filter_sublist
    have own : kind.key ∈ keys := by
      have found : kind ∈ keys.filterMap NodeKind.ofKey? := one ▸ List.mem_singleton_self kind
      obtain ⟨key, member, same⟩ := List.mem_filterMap.mp found
      exact NodeKind.ofKey?_eq_some_iff.mp same ▸ member
    refine ⟨extra, some, ?_⟩
    rw [List.perm_ext_iff_of_nodup distinct (kind.allowed_nodup.sublist (wanted extra some))]
    intro key
    constructor
    · intro member
      have known := allowed key member
      simp only [NodeKind.allowed, List.mem_cons, List.mem_append] at known ⊢
      rcases known with own | required | optional
      · exact .inl own
      · exact .inr (.inl required)
      · exact .inr (.inr (List.mem_filter.mpr ⟨optional, by simpa using member⟩))
    · intro member
      simp only [List.mem_cons, List.mem_append] at member
      rcases member with rfl | needed | present
      · exact own
      · exact required key needed
      · simpa using (List.mem_filter.mp present).2
  · rintro ⟨extra, some, perm⟩
    refine ⟨?_, ?_, ?_⟩
    · have none : (kind.required ++ extra).filterMap NodeKind.ofKey? = [] := by
        rw [List.filterMap_eq_nil_iff]
        intro key member
        exact NodeKind.ofKey?_field ((some.append_left kind.required).subset member)
      have kinds := perm.filterMap NodeKind.ofKey?
      rw [List.filterMap_cons_some (NodeKind.ofKey?_eq_some_iff.mpr rfl), none] at kinds
      exact List.perm_singleton.mp kinds
    · intro key needed
      exact perm.mem_iff.mpr (List.mem_cons_of_mem _ (List.mem_append_left extra needed))
    · intro key member
      exact (wanted extra some).subset (perm.mem_iff.mp member)

theorem exists_perm_map_eq {α β : Type} {f : α → β} {items : List α} {keys : List β}
    (perm : (items.map f).Perm keys) : ∃ order : List α, order.Perm items ∧ order.map f = keys := by
  have through : Relation.Comp (List.Forall₂ fun item key => f item = key) List.Perm items keys :=
    ⟨items.map f, by rw [← List.forall₂_map_left_iff, List.forall₂_eq_eq_eq], perm⟩
  rw [List.forall₂_comp_perm_eq_perm_comp_forall₂] at through
  obtain ⟨order, same, keyed⟩ := through
  rw [← List.forall₂_map_left_iff, List.forall₂_eq_eq_eq] at keyed
  exact ⟨order, same.symm, keyed⟩

/-! ## Entries -/

namespace Field

def text (field : Field) : String := (keyText? field.key).getD ""

def named (fields : List Field) : List (String × Field) :=
  fields.map fun field => (field.text, field)

theorem name_eq_clean_iff (file : String) {fields : List Field} {result : List (String × Field)} :
    ∀ {before : List (String × Field)}, name file fields before = (result, []) ↔
      (∀ field ∈ fields, (keyText? field.key).isSome) ∧ (fields.map text).Nodup ∧
        (∀ field ∈ fields, field.text ∉ before.map Prod.fst) ∧
        result = before.reverse ++ named fields := by
  induction fields with
  | nil =>
    intro before
    simp only [name, named, Prod.mk.injEq, and_true, List.map_nil, List.append_nil]
    exact ⟨fun same => ⟨nofun, List.nodup_nil, nofun, same.symm⟩, fun ⟨_, _, _, same⟩ => same.symm⟩
  | cons field rest ih =>
    intro before
    rcases field with ⟨key, value, expr, items⟩
    cases key with
    | scalar mark tag style word =>
      by_cases known : before.any (·.1 == word)
      · have stale : word ∈ before.map Prod.fst := by
          obtain ⟨entry, member, same⟩ := List.any_eq_true.mp known
          exact List.mem_map.mpr ⟨entry, member, by simpa using same⟩
        simp only [name, known, if_true, Prod.mk.injEq, reduceCtorEq, and_false, false_iff]
        rintro ⟨-, -, fresh, -⟩
        exact fresh _ List.mem_cons_self stale
      · have fresh : word ∉ before.map Prod.fst := by
          intro member
          obtain ⟨entry, found, same⟩ := List.mem_map.mp member
          exact known (List.any_eq_true.mpr ⟨entry, found, by simpa using same⟩)
        simp only [name, known, Bool.false_eq_true, if_false]
        rw [ih]
        simp only [List.map_cons, List.nodup_cons, List.mem_cons, named, List.reverse_cons,
          List.append_assoc, List.singleton_append, keyText?, text, Option.getD_some, not_or,
          List.mem_map, forall_and]
        grind
    | sequence mark tag items => simp [name, keyText?]
    | mapping mark tag entries => simp [name, keyText?]
    | reference mark word target => simp [name, keyText?]

theorem find?_named {fields : List Field} (distinct : (fields.map text).Nodup) {field : Field}
    (member : field ∈ fields) : find? (named fields) field.text = some field := by
  induction fields with
  | nil => cases member
  | cons first rest ih =>
    rw [List.map_cons, List.nodup_cons] at distinct
    rcases List.mem_cons.mp member with rfl | later
    · simp [find?, named]
    · have apart : first.text ≠ field.text := fun same =>
        distinct.1 (same ▸ List.mem_map_of_mem later)
      have found := ih distinct.2 later
      simpa [find?, named, apart] using found

theorem find?_named_eq_none {fields : List Field} {key : String} :
    find? (named fields) key = none ↔ key ∉ fields.map text := by
  simp [find?, named]

theorem kinds_named (fields : List Field) :
    (named fields).filterMap (fun field => NodeKind.ofKey? field.1) =
      (fields.map text).filterMap NodeKind.ofKey? := by
  rw [named, List.filterMap_map, List.filterMap_map]
  rfl

end Field

theorem keyErrors_eq_nil_iff {file : String} {node : Node} {kind : NodeKind}
    {fields : List Field} :
    keyErrors file node kind (Field.named fields) = [] ↔
      (∀ key ∈ kind.required, key ∈ fields.map Field.text) ∧
        ∀ key ∈ fields.map Field.text, key ∈ kind.allowed := by
  simp only [keyErrors, List.append_eq_nil_iff, List.map_eq_nil_iff, List.filter_eq_nil_iff,
    Option.isNone_iff_eq_none, Field.find?_named_eq_none, not_not]
  simp [Field.named]

theorem Fields.mem_entries {entries : List (Node × Node)} {fields : List (String × Node)}
    (given : Fields entries fields) {key : String} {node : Node}
    (member : (key, node) ∈ fields) :
    ∃ word, keyText? word = some key ∧ (word, node) ∈ entries := by
  obtain ⟨order, perm, same⟩ := given
  have found := List.mem_map_of_mem (f := fun field : String × Node =>
    (some field.1, field.2)) member
  rw [← same] at found
  obtain ⟨⟨word, value⟩, present, pair⟩ := List.mem_map.mp found
  obtain ⟨text, rfl⟩ := Prod.mk.inj pair
  exact ⟨word, text, perm.mem_iff.mp present⟩

theorem exists_optionalField {key : String} {fields : List (String × Node)}
    (some : (fields.map Prod.fst).Sublist [key]) : ∃ value, fields = optionalField key value := by
  rcases List.sublist_singleton.mp some with none | one
  · exact ⟨.none, List.map_eq_nil_iff.mp none⟩
  · obtain ⟨⟨_, node⟩, rest, rfl, rfl, none⟩ := List.map_eq_cons_iff.mp one
    exact ⟨.some node, by rw [List.map_eq_nil_iff.mp none]; rfl⟩

variable [Yaml.Library]

def Field.ofEntry (file : String) (entry : Node × Node) : Field :=
  ⟨entry.1, entry.2, readExpr file entry.2, readOwnItems file entry.2⟩

theorem readFields_eq_map (file : String) (entries : List (Node × Node)) :
    readFields file entries = entries.map (Field.ofEntry file) := by
  induction entries with
  | nil => rw [readFields]; rfl
  | cons entry rest ih =>
    obtain ⟨key, value⟩ := entry
    rw [readFields, ih]
    rfl

/-! ## Fields -/

section Fields
variable {entries : List (Node × Node)} {fields : List (String × Node)} (file : String)

/-- Entries have fields with these keys exactly if their own keys are scalars and, in some order,
these. -/
theorem fields_iff {keys : List String} :
    (∃ fields, Fields entries fields ∧ fields.map Prod.fst = keys) ↔
      (∀ entry ∈ entries, (keyText? entry.1).isSome) ∧
        ((entries.map (Field.ofEntry file)).map Field.text).Perm keys := by
  constructor
  · rintro ⟨fields, ⟨order, perm, same⟩, rfl⟩
    have scalars : ∀ entry ∈ order, (keyText? entry.1).isSome := by
      intro entry member
      have found := List.mem_map_of_mem (f := fun entry : Node × Node =>
        (keyText? entry.1, entry.2)) member
      rw [same] at found
      obtain ⟨field, -, pair⟩ := List.mem_map.mp found
      rw [← (Prod.mk.inj pair).1]
      rfl
    refine ⟨fun entry member => scalars entry (perm.mem_iff.mpr member), ?_⟩
    have texts : order.map (fun entry => (Field.ofEntry file entry).text) =
        fields.map Prod.fst := by
      have both := congrArg (List.map fun pair : Option String × Node => pair.1.getD "") same
      simpa [Function.comp_def, Field.ofEntry, Field.text] using both
    rw [← texts, List.map_map]
    exact (perm.map _).symm
  · rintro ⟨scalars, perm⟩
    rw [List.map_map] at perm
    obtain ⟨order, reordered, texts⟩ := exists_perm_map_eq perm
    refine ⟨order.map fun entry => ((Field.ofEntry file entry).text, entry.2),
      ⟨order, reordered, ?_⟩, ?_⟩
    · rw [List.map_map]
      refine List.map_congr_left fun entry member => ?_
      obtain ⟨word, found⟩ :=
        Option.isSome_iff_exists.mp (scalars entry (reordered.mem_iff.mp member))
      simp [Field.ofEntry, Field.text, found]
    · rw [← texts, List.map_map]
      rfl

theorem Fields.find? (given : Fields entries fields)
    (distinct : (fields.map Prod.fst).Nodup) (key : String) {node : Node}
    (member : (key, node) ∈ fields) :
    ∃ word, Field.find? (Field.named (entries.map (Field.ofEntry file))) key =
      some (Field.ofEntry file (word, node)) := by
  have texts := ((fields_iff file).mp ⟨fields, given, rfl⟩).2
  obtain ⟨word, text, present⟩ := given.mem_entries member
  refine ⟨word, ?_⟩
  have named : (Field.ofEntry file (word, node)).text = key := by
    simp [Field.ofEntry, Field.text, text]
  rw [← named]
  exact Field.find?_named (texts.nodup_iff.mpr distinct) (List.mem_map_of_mem present)

theorem Fields.find?_eq_none (given : Fields entries fields) {key : String}
    (absent : key ∉ fields.map Prod.fst) :
    Field.find? (Field.named (entries.map (Field.ofEntry file))) key = none := by
  have texts := ((fields_iff file).mp ⟨fields, given, rfl⟩).2
  rw [Field.find?_named_eq_none, texts.mem_iff]
  exact absent

end Fields

/-- A mapping is read exactly if it has the fields of one kind and its parts are read. -/
theorem readMapping_eq_pure_iff {file : String} {node : Node} {entries : List (Node × Node)}
    {expr : Expr} :
    readMapping file node (entries.map (Field.ofEntry file)) = .pure expr ↔
      ∃ (kind : NodeKind) (extra : List String) (fields : List (String × Node)),
        extra.Sublist kind.optional ∧ Fields entries fields ∧
          fields.map Prod.fst = kind.key :: (kind.required ++ extra) ∧
          readParts file node kind (Field.named (entries.map (Field.ofEntry file))) =
            .pure expr := by
  constructor
  · intro given
    unfold readMapping at given
    cases named : Field.name file (entries.map (Field.ofEntry file)) [] with
    | mk fields diagnostics =>
      rw [named] at given
      cases diagnostics with
      | cons diagnostic rest => simp [Reading.pure] at given
      | nil =>
        obtain ⟨scalars, distinct, -, rfl⟩ := (Field.name_eq_clean_iff file).mp named
        simp only [List.reverse_nil, List.nil_append, List.isEmpty_nil, Bool.not_true,
          Bool.false_eq_true, if_false] at given
        split at given
        · exact absurd given (Reading.fail_ne_pure _ _)
        · rename_i kind one
          split at given
          · rename_i right
            rw [Field.kinds_named] at one
            obtain ⟨extra, some, perm⟩ := (distinct_keys_iff distinct kind).mp
              ⟨one, keyErrors_eq_nil_iff.mp right⟩
            obtain ⟨fields, own, keys⟩ :=
              (fields_iff file).mpr ⟨List.forall_mem_map.mp scalars, perm⟩
            exact ⟨kind, extra, fields, some, own, keys, given⟩
          · simp [Reading.pure] at given
        · exact absurd given (Reading.fail_ne_pure _ _)
  · rintro ⟨kind, extra, fields, some, own, keys, given⟩
    obtain ⟨scalars, perm⟩ := (fields_iff file).mp ⟨fields, own, keys⟩
    have distinct : ((entries.map (Field.ofEntry file)).map Field.text).Nodup := by
      rw [perm.nodup_iff]
      exact kind.allowed_nodup.sublist ((some.append_left kind.required).cons_cons kind.key)
    have clean : Field.name file (entries.map (Field.ofEntry file)) [] =
        (Field.named (entries.map (Field.ofEntry file)), []) :=
      (Field.name_eq_clean_iff file).mpr
        ⟨List.forall_mem_map.mpr scalars, distinct, by simp, rfl⟩
    obtain ⟨one, right⟩ := (distinct_keys_iff distinct kind).mpr ⟨extra, some, perm⟩
    rw [← Field.kinds_named] at one
    simp only [readMapping, clean, List.isEmpty_nil, Bool.not_true, Bool.false_eq_true, if_false,
      one, keyErrors_eq_nil_iff.mpr right]
    exact given

/-! ## Expressions -/

/-- The node is read as what it spells, and so are its items if it is a list. -/
structure Understood (file : String) (node : Node) : Prop where
  expr : ∀ expr, readExpr file node = .pure expr ↔ Spells file node expr
  items : ∀ mark tag items, node = .sequence mark tag items → ∀ exprs,
    Reading.all (readItems file items) = .pure exprs ↔ SpellsAll file items exprs

theorem readList_absent {file key : String} {exprs : List Expr} :
    readList file key none = .pure exprs ↔ SpellsList file none exprs := by
  constructor
  · intro given
    cases given
    exact .absent
  · intro spelled
    cases spelled
    rfl

theorem readList_eq_pure_iff {file key : String} {word node : Node} {exprs : List Expr}
    (understood : Understood file node) :
    readList file key (some (Field.ofEntry file (word, node))) = .pure exprs ↔
      SpellsList file (some node) exprs := by
  unfold readList Field.ofEntry
  dsimp only
  split
  · rename_i null
    constructor
    · intro given
      cases given
      exact .nothing (isNull_iff.mp null)
    · intro spelled
      cases spelled with
      | nothing => rfl
      | list mark tag each => simp [isNull] at null
  · rename_i null
    constructor
    · intro given
      cases node with
      | sequence mark tag items =>
        exact .list mark tag ((understood.items mark tag items rfl exprs).mp (by
          simpa only [readOwnItems] using given))
      | _ => exact absurd given (Reading.fail_ne_pure _ _)
    · intro spelled
      cases spelled with
      | nothing spelled => exact absurd (isNull_iff.mpr spelled) null
      | list mark tag each =>
        simp only [readOwnItems]
        exact (understood.items mark tag _ rfl exprs).mpr each

theorem Fields.understood {file : String} {entries : List (Node × Node)}
    {fields : List (String × Node)} (given : Fields entries fields)
    (understood : ∀ entry ∈ entries, Understood file entry.2) {key : String} {node : Node}
    (member : (key, node) ∈ fields) : Understood file node := by
  obtain ⟨word, -, present⟩ := given.mem_entries member
  exact understood _ present

section Parts
variable {file : String} {node : Node} {entries : List (Node × Node)}
  (understood : ∀ entry ∈ entries, Understood file entry.2) {expr : Expr}

theorem readParts_literal {number : Node} (own : Fields entries [("lit", number)]) :
    readParts file node .literal (Field.named (entries.map (Field.ofEntry file))) = .pure expr ↔
      ∃ value, SpellsNumber number value ∧ .literal (Span.ofNode file node) value = expr := by
  obtain ⟨_, found⟩ := own.find? file (by simp) "lit" (.head _)
  simp only [readParts, NodeKind.key, found, Option.map_some, Option.getD_some, Field.ofEntry,
    Reading.map_eq_pure, readNumber_eq_pure_iff]

theorem readParts_read {word : Node} (own : Fields entries [("get", word)]) :
    readParts file node .read (Field.named (entries.map (Field.ofEntry file))) = .pure expr ↔
      ∃ name, SpellsName word name ∧ .read (Span.ofNode file node) name = expr := by
  obtain ⟨_, found⟩ := own.find? file (by simp) "get" (.head _)
  simp only [readParts, NodeKind.key, found, Option.map_some, Option.getD_some, Field.ofEntry,
    Reading.map_eq_pure, readName_eq_pure_iff]

include understood

theorem readParts_define {word part : Node}
    (own : Fields entries [("let", word), ("value", part)]) :
    readParts file node .define (Field.named (entries.map (Field.ofEntry file))) = .pure expr ↔
      ∃ name value, (SpellsName word name ∧ Spells file part value) ∧
        .define (Span.ofNode file node) name value = expr := by
  obtain ⟨_, name⟩ := own.find? file (by simp) "let" (.head _)
  obtain ⟨_, value⟩ := own.find? file (by simp) "value" (.tail _ (.head _))
  have inner := (own.understood understood (.tail _ (.head _))).expr
  simp only [readParts, NodeKind.key, name, value, Option.map_some, Option.getD_some,
    Field.ofEntry, Reading.map_eq_pure, Prod.exists, Reading.both_eq_pure, readName_eq_pure_iff,
    inner]

theorem readParts_binary {operator first second : Node}
    (own : Fields entries [("op", operator), ("left", first), ("right", second)]) :
    readParts file node .binary (Field.named (entries.map (Field.ofEntry file))) = .pure expr ↔
      ∃ symbol left right, (SpellsOperator operator symbol ∧ Spells file first left ∧
        Spells file second right) ∧ .binary (Span.ofNode file node) symbol left right = expr := by
  obtain ⟨_, symbol⟩ := own.find? file (by simp) "op" (.head _)
  obtain ⟨_, left⟩ := own.find? file (by simp) "left" (.tail _ (.head _))
  obtain ⟨_, right⟩ := own.find? file (by simp) "right" (.tail _ (.tail _ (.head _)))
  have inner := (own.understood understood (.tail _ (.head _))).expr
  have other := (own.understood understood (.tail _ (.tail _ (.head _)))).expr
  simp only [readParts, NodeKind.key, symbol, left, right, Option.map_some, Option.getD_some,
    Field.ofEntry, Reading.map_eq_pure, Prod.exists, Reading.both_eq_pure,
    readOperator_eq_pure_iff, inner, other]

theorem readParts_guarded {first second : Node}
    (own : Fields entries [("if", first), ("then", second)]) :
    readParts file node .guarded (Field.named (entries.map (Field.ofEntry file))) = .pure expr ↔
      ∃ condition consequent, (Spells file first condition ∧ Spells file second consequent) ∧
        .guarded (Span.ofNode file node) condition consequent = expr := by
  obtain ⟨_, condition⟩ := own.find? file (by simp) "if" (.head _)
  obtain ⟨_, consequent⟩ := own.find? file (by simp) "then" (.tail _ (.head _))
  have inner := (own.understood understood (.head _)).expr
  have other := (own.understood understood (.tail _ (.head _))).expr
  simp only [readParts, condition, consequent, Field.ofEntry, Reading.map_eq_pure, Prod.exists,
    Reading.both_eq_pure, inner, other]

theorem readList_field {key other : String} {head : Node} {list : Option Node}
    (exprs : List Expr) (apart : key ≠ other)
    (own : Fields entries ((other, head) :: optionalField key list)) :
    readList file key (Field.find? (Field.named (entries.map (Field.ofEntry file))) key) =
      .pure exprs ↔ SpellsList file list exprs := by
  cases list with
  | none =>
    rw [own.find?_eq_none file (by simpa [optionalField] using apart)]
    exact readList_absent
  | some part =>
    obtain ⟨_, found⟩ := own.find? file
      (by simpa [optionalField] using apart.symm) key (.tail _ (.head _))
    rw [found]
    exact readList_eq_pure_iff (own.understood understood (.tail _ (.head _)))

theorem readParts_function {names : Node} {list : Option Node}
    (own : Fields entries (("fn", names) :: optionalField "body" list)) :
    readParts file node .function (Field.named (entries.map (Field.ofEntry file))) = .pure expr ↔
      ∃ params body, (SpellsParams names params ∧ SpellsList file list body) ∧
        .function (Span.ofNode file node) params body = expr := by
  have distinct : ((("fn", names) :: optionalField "body" list).map Prod.fst).Nodup := by
    cases list <;> simp [optionalField]
  have listed (body : List Expr) := readList_field understood body (by decide) own
  obtain ⟨_, found⟩ := own.find? file distinct "fn" (.head _)
  simp only [readParts, NodeKind.key, found, Option.map_some, Option.getD_some, Field.ofEntry,
    Reading.map_eq_pure, Prod.exists, Reading.both_eq_pure, readParams_eq_pure_iff, listed]

theorem readParts_call {called : Node} {list : Option Node}
    (own : Fields entries (("call", called) :: optionalField "args" list)) :
    readParts file node .call (Field.named (entries.map (Field.ofEntry file))) = .pure expr ↔
      ∃ callee args, (Spells file called callee ∧ SpellsList file list args) ∧
        .call (Span.ofNode file node) callee args = expr := by
  have distinct : ((("call", called) :: optionalField "args" list).map Prod.fst).Nodup := by
    cases list <;> simp [optionalField]
  have listed (args : List Expr) := readList_field understood args (by decide) own
  have inner := (own.understood understood (.head _)).expr
  obtain ⟨_, found⟩ := own.find? file distinct "call" (.head _)
  simp only [readParts, found, Field.ofEntry, Reading.map_eq_pure, Prod.exists,
    Reading.both_eq_pure, inner, listed]

end Parts

theorem readMapping_spells {file : String} {mark : Yaml.Mark} {tag : String}
    {entries : List (Node × Node)} (understood : ∀ entry ∈ entries, Understood file entry.2)
    (expr : Expr) :
    readMapping file (.mapping mark tag entries) (entries.map (Field.ofEntry file)) = .pure expr ↔
      Spells file (.mapping mark tag entries) expr := by
  rw [readMapping_eq_pure_iff]
  constructor
  · rintro ⟨kind, extra, fields, some, own, keys, given⟩
    -- the keys are those of the kind, so the fields are known up to their values
    obtain ⟨⟨_, head⟩, rest, rfl, rfl, others⟩ := List.map_eq_cons_iff.mp keys
    cases kind with
    | literal =>
      cases List.sublist_nil.mp some
      cases List.map_eq_nil_iff.mp others
      obtain ⟨value, number, rfl⟩ := (readParts_literal own).mp given
      exact .literal own number
    | read =>
      cases List.sublist_nil.mp some
      cases List.map_eq_nil_iff.mp others
      obtain ⟨name, named, rfl⟩ := (readParts_read own).mp given
      exact .read own named
    | define =>
      cases List.sublist_nil.mp some
      obtain ⟨⟨_, part⟩, rest, rfl, rfl, more⟩ := List.map_eq_cons_iff.mp others
      cases List.map_eq_nil_iff.mp more
      obtain ⟨name, value, ⟨named, spelled⟩, rfl⟩ := (readParts_define understood own).mp given
      exact .define own named spelled
    | binary =>
      cases List.sublist_nil.mp some
      obtain ⟨⟨_, first⟩, rest, rfl, rfl, more⟩ := List.map_eq_cons_iff.mp others
      obtain ⟨⟨_, second⟩, rest, rfl, rfl, last⟩ := List.map_eq_cons_iff.mp more
      cases List.map_eq_nil_iff.mp last
      obtain ⟨symbol, left, right, ⟨operates, leftSpelled, rightSpelled⟩, rfl⟩ :=
        (readParts_binary understood own).mp given
      exact .binary own operates leftSpelled rightSpelled
    | guarded =>
      cases List.sublist_nil.mp some
      obtain ⟨⟨_, second⟩, rest, rfl, rfl, more⟩ := List.map_eq_cons_iff.mp others
      cases List.map_eq_nil_iff.mp more
      obtain ⟨condition, consequent, ⟨tested, spelled⟩, rfl⟩ :=
        (readParts_guarded understood own).mp given
      exact .guarded own tested spelled
    | function =>
      obtain ⟨list, rfl⟩ : ∃ list, rest = optionalField "body" list :=
        exists_optionalField (others ▸ some)
      obtain ⟨params, body, ⟨named, spelled⟩, rfl⟩ := (readParts_function understood own).mp given
      exact .function own named spelled
    | call =>
      obtain ⟨list, rfl⟩ : ∃ list, rest = optionalField "args" list :=
        exists_optionalField (others ▸ some)
      obtain ⟨callee, args, ⟨calls, spelled⟩, rfl⟩ := (readParts_call understood own).mp given
      exact .call own calls spelled
  · intro spelled
    cases spelled with
    | literal own number =>
      refine ⟨.literal, [], _, List.nil_sublist _, own, rfl, ?_⟩
      exact (readParts_literal own).mpr ⟨_, number, rfl⟩
    | read own named =>
      refine ⟨.read, [], _, List.nil_sublist _, own, rfl, ?_⟩
      exact (readParts_read own).mpr ⟨_, named, rfl⟩
    | define own named spelled =>
      refine ⟨.define, [], _, List.nil_sublist _, own, rfl, ?_⟩
      exact (readParts_define understood own).mpr ⟨_, _, ⟨named, spelled⟩, rfl⟩
    | binary own operates leftSpelled rightSpelled =>
      refine ⟨.binary, [], _, List.nil_sublist _, own, rfl, ?_⟩
      exact (readParts_binary understood own).mpr
        ⟨_, _, _, ⟨operates, leftSpelled, rightSpelled⟩, rfl⟩
    | guarded own tested spelled =>
      refine ⟨.guarded, [], _, List.nil_sublist _, own, rfl, ?_⟩
      exact (readParts_guarded understood own).mpr ⟨_, _, ⟨tested, spelled⟩, rfl⟩
    | function own named spelled =>
      rename_i names list params body
      refine ⟨.function, (optionalField "body" list).map Prod.fst, _, ?_, own, rfl, ?_⟩
      · cases list <;> simp [optionalField, NodeKind.optional]
      · exact (readParts_function understood own).mpr ⟨_, _, ⟨named, spelled⟩, rfl⟩
    | call own calls spelled =>
      rename_i called list callee args
      refine ⟨.call, (optionalField "args" list).map Prod.fst, _, ?_, own, rfl, ?_⟩
      · cases list <;> simp [optionalField, NodeKind.optional]
      · exact (readParts_call understood own).mpr ⟨_, _, ⟨calls, spelled⟩, rfl⟩

theorem Spells.isMapping {file : String} {node : Node} {expr : Expr}
    (spelled : Spells file node expr) : ∃ mark tag entries, node = .mapping mark tag entries := by
  cases spelled <;> exact ⟨_, _, _, rfl⟩

mutual

theorem understood (file : String) : (node : Node) → Understood file node
  | .scalar mark tag style text => by
    refine ⟨fun expr => ⟨fun given => ?_, fun spelled => ?_⟩, nofun⟩
    · exact absurd given (Reading.fail_ne_pure _ _)
    · obtain ⟨_, _, _, same⟩ := spelled.isMapping
      cases same
  | .reference mark name target => by
    refine ⟨fun expr => ⟨fun given => ?_, fun spelled => ?_⟩, nofun⟩
    · exact absurd given (Reading.fail_ne_pure _ _)
    · obtain ⟨_, _, _, same⟩ := spelled.isMapping
      cases same
  | .sequence mark tag items => by
    refine ⟨fun expr => ⟨fun given => ?_, fun spelled => ?_⟩, ?_⟩
    · exact absurd given (Reading.fail_ne_pure _ _)
    · obtain ⟨_, _, _, same⟩ := spelled.isMapping
      cases same
    · rintro _ _ _ ⟨⟩
      exact readItems_spells file items
  | .mapping mark tag entries => by
    refine ⟨fun expr => ?_, nofun⟩
    rw [readExpr, readFields_eq_map]
    exact readMapping_spells (understoodAll file entries) expr

theorem understoodAll (file : String) :
    (entries : List (Node × Node)) → ∀ entry ∈ entries, Understood file entry.2
  | [] => nofun
  | (key, value) :: rest => fun entry member => by
    rcases List.mem_cons.mp member with rfl | later
    · exact understood file value
    · exact understoodAll file rest entry later

theorem readItems_spells (file : String) : (items : List Node) → (exprs : List Expr) →
    (Reading.all (readItems file items) = .pure exprs ↔ SpellsAll file items exprs)
  | [], exprs => by
    rw [readItems, Reading.all]
    constructor
    · intro given
      cases given
      exact .nil
    · intro spelled
      cases spelled
      rfl
  | item :: rest, exprs => by
    rw [readItems, Reading.all, Reading.map_eq_pure]
    constructor
    · rintro ⟨⟨expr, others⟩, both, rfl⟩
      obtain ⟨first, after⟩ := Reading.both_eq_pure.mp both
      exact .cons (((understood file item).expr expr).mp first)
        ((readItems_spells file rest others).mp after)
    · intro spelled
      cases spelled with
      | cons first others =>
        exact ⟨(_, _), Reading.both_eq_pure.mpr ⟨((understood file item).expr _).mpr first,
          (readItems_spells file rest _).mpr others⟩, rfl⟩

end

/-! ## Documents -/

theorem readRoot_eq_pure_iff {file : String} {root : Node} (anchored : List Node)
    {statements : List Expr} :
    readRoot file root = .pure statements ↔
      SpellsDocument file (some ⟨root, anchored⟩) ⟨⟨file, 1, 1⟩, statements⟩ := by
  constructor
  · intro given
    cases root with
    | sequence mark tag items =>
      exact .list mark tag anchored ((readItems_spells file items statements).mp given)
    | mapping mark tag entries =>
      obtain ⟨expr, read, rfl⟩ := Reading.map_eq_pure.mp given
      exact .single anchored (((understood file _).expr expr).mp read)
    | _ => exact absurd given (Reading.fail_ne_pure _ _)
  · intro spelled
    cases spelled with
    | list mark tag _ each => exact (readItems_spells file _ statements).mpr each
    | single _ spelled =>
      obtain ⟨mark, tag, entries, rfl⟩ := spelled.isMapping
      exact Reading.map_eq_pure.mpr ⟨_, ((understood file _).expr _).mpr spelled, rfl⟩

theorem readDocument_eq_ok_iff {file : String} {document : Option Yaml.Document}
    {program : Program} :
    readDocument file document = .ok program ↔ SpellsDocument file document program := by
  cases document with
  | none =>
    constructor
    · intro given
      cases given
      exact .absent
    · intro spelled
      cases spelled
      rfl
  | some document =>
    obtain ⟨root, anchored⟩ := document
    constructor
    · intro given
      simp only [readDocument] at given
      split at given
      · rename_i statements value clean
        cases given
        apply (readRoot_eq_pure_iff anchored).mp
        rw [Reading.pure, ← value, ← clean]
      · cases given
    · intro spelled
      obtain ⟨statements, rfl⟩ : ∃ statements, program = ⟨⟨file, 1, 1⟩, statements⟩ := by
        cases spelled <;> exact ⟨_, rfl⟩
      simp only [readDocument, (readRoot_eq_pure_iff anchored).mpr spelled, Reading.pure]

end Sapling
