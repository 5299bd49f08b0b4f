import Sapling.Reading

/-!
# Documents that cannot be read

Reading goes on after a fault, so that what it gives is a value unless something was wrong, and a
list of complaints.  The two belong together: where there is no value there is a complaint, and
every complaint is an error in the tree (`Reading.Explained`).  Reading parts one after another
keeps this, so a document that cannot be read always says why (`readProgram_explained`).
-/

set_option autoImplicit false

namespace Sapling

open Yaml (Node)

/-- There is a complaint where there is no value, and complaints are errors in the tree. -/
structure Reading.Explained {α : Type} (reading : Reading α) : Prop where
  complains : reading.value = none → reading.diagnostics ≠ []
  errors : ∀ d ∈ reading.diagnostics, d.code = Code.ast.text ∧ d.isError = true

namespace Reading
variable {α β : Type}

theorem explained_pure (value : α) : (pure value).Explained := ⟨nofun, nofun⟩

theorem explained_one {value : Option α} {d : Diagnostic} (code : d.code = Code.ast.text)
    (isError : d.isError = true) : (⟨value, [d]⟩ : Reading α).Explained where
  complains := fun _ => by simp
  errors := by simp [code, isError]

theorem explained_none {diagnostics : List Diagnostic} (some : diagnostics ≠ [])
    (errors : ∀ d ∈ diagnostics, d.code = Code.ast.text ∧ d.isError = true) :
    (⟨none, diagnostics⟩ : Reading α).Explained := ⟨fun _ => some, errors⟩

theorem Explained.map {reading : Reading α} (explained : reading.Explained) (f : α → β) :
    (reading.map f).Explained where
  complains := fun missing => explained.complains (by simpa [Reading.map] using missing)
  errors := explained.errors

theorem Explained.both {left : Reading α} {right : Reading β} (first : left.Explained)
    (second : right.Explained) : (left.both right).Explained where
  complains := by
    intro missing
    have absent : left.value = none ∨ right.value = none := by
      rcases left with ⟨a, _⟩
      rcases right with ⟨b, _⟩
      cases a <;> cases b <;> simp_all [Reading.both]
    rcases absent with absent | absent
    · exact List.append_ne_nil_of_left_ne_nil (first.complains absent) _
    · exact List.append_ne_nil_of_right_ne_nil _ (second.complains absent)
  errors := by
    intro d member
    rcases List.mem_append.mp member with earlier | later
    · exact first.errors d earlier
    · exact second.errors d later

theorem explained_all {readings : List (Reading α)}
    (each : ∀ reading ∈ readings, reading.Explained) : (all readings).Explained := by
  induction readings with
  | nil => exact explained_pure []
  | cons reading rest ih =>
    obtain ⟨first, others⟩ := List.forall_mem_cons.mp each
    exact (first.both (ih others)).map _

end Reading

/-! ## Parts that are no expressions -/

theorem explained_nodeError {α : Type} (file : String) (node : Node) (message : String) :
    (Reading.fail (nodeError file node message) : Reading α).Explained :=
  Reading.explained_one rfl rfl

theorem explained_hint {α : Type} (file : String) (node : Node) (message hint : String) :
    (Reading.fail ((nodeError file node message).withHint hint) : Reading α).Explained :=
  Reading.explained_one rfl rfl

theorem explained_alias {α : Type} (file : String) (node : Node) (name : String) :
    (Reading.fail (aliasError file node name) : Reading α).Explained :=
  explained_hint ..

theorem readNumber_explained [Yaml.Library] (file : String) (node : Node) :
    (readNumber file node).Explained := by
  unfold readNumber
  split
  · split
    · split
      · exact Reading.explained_pure _
      · exact Reading.explained_pure _
      · exact explained_nodeError ..
      · exact explained_nodeError ..
    · exact explained_hint ..
  · exact explained_hint ..

theorem readName_explained (file : String) (node : Node) : (readName file node).Explained := by
  unfold readName
  split
  · split
    · exact explained_nodeError ..
    · exact Reading.explained_pure _
  · exact explained_nodeError ..

theorem readParams_explained (file : String) (node : Node) : (readParams file node).Explained := by
  unfold readParams
  split
  · exact Reading.explained_pure _
  · split
    · exact explained_alias ..
    · refine Reading.explained_all fun reading member => ?_
      obtain ⟨item, _, rfl⟩ := List.mem_map.mp member
      exact readName_explained file item
    · exact explained_nodeError ..

theorem readOperator_explained (file : String) (node : Node) :
    (readOperator file node).Explained := by
  unfold readOperator
  split
  · split
    · exact Reading.explained_pure _
    · exact explained_hint ..
  · exact Reading.explained_one rfl rfl
  · exact explained_hint ..

theorem notExpression_explained {α : Type} (file : String) (node : Node) :
    (Reading.fail (notExpression file node) : Reading α).Explained := by
  unfold notExpression
  split
  · exact explained_alias ..
  · exact explained_hint ..

/-! ## Entries -/

/-- What an entry holds is explained, read as an expression and item by item. -/
structure Field.Explained (field : Field) : Prop where
  expr : field.expr.Explained
  items : ∀ item ∈ field.items, item.Explained

theorem Field.name_explained (file : String) {entries : List Field}
    (each : ∀ field ∈ entries, field.Explained) :
    ∀ named : List (String × Field), (∀ field ∈ named, field.2.Explained) →
      (∀ field ∈ (Field.name file entries named).1, field.2.Explained) ∧
      ∀ d ∈ (Field.name file entries named).2, d.code = Code.ast.text ∧ d.isError = true := by
  induction entries with
  | nil =>
    intro named namedEach
    refine ⟨fun field member => namedEach field ?_, nofun⟩
    simpa [Field.name] using member
  | cons field rest ih =>
    intro named namedEach
    obtain ⟨first, others⟩ := List.forall_mem_cons.mp each
    rw [Field.name]
    split
    · split
      · obtain ⟨fields, errors⟩ := ih others named namedEach
        exact ⟨fields, List.forall_mem_cons.mpr ⟨⟨rfl, rfl⟩, errors⟩⟩
      · exact ih others _ (List.forall_mem_cons.mpr ⟨first, namedEach⟩)
    · obtain ⟨fields, errors⟩ := ih others named namedEach
      exact ⟨fields, List.forall_mem_cons.mpr ⟨⟨rfl, rfl⟩, errors⟩⟩

section Entries
variable {file : String} {node : Node} {fields : List (String × Field)}

theorem Field.find?_explained (each : ∀ field ∈ fields, field.2.Explained) {key : String}
    {field : Field} (found : Field.find? fields key = some field) : field.Explained := by
  obtain ⟨entry, isEntry, rfl⟩ := Option.map_eq_some_iff.mp found
  exact each entry (List.mem_of_find?_eq_some isEntry)

theorem readList_explained (each : ∀ field ∈ fields, field.2.Explained) (file key : String) :
    (readList file key (Field.find? fields key)).Explained := by
  cases found : Field.find? fields key with
  | none => exact Reading.explained_pure _
  | some field =>
    rw [readList]
    split
    · exact Reading.explained_pure _
    · split
      · exact explained_alias ..
      · exact Reading.explained_all (Field.find?_explained each found).items
      · exact explained_nodeError ..

theorem keyErrors_errors (file : String) (node : Node) (kind : NodeKind)
    (fields : List (String × Field)) :
    ∀ d ∈ keyErrors file node kind fields, d.code = Code.ast.text ∧ d.isError = true := by
  intro d member
  rcases List.mem_append.mp member with missing | unknown
  · obtain ⟨key, _, rfl⟩ := List.mem_map.mp missing
    exact ⟨rfl, rfl⟩
  · obtain ⟨field, _, rfl⟩ := List.mem_map.mp unknown
    exact ⟨rfl, rfl⟩

variable [Yaml.Library]

theorem readParts_explained (each : ∀ field ∈ fields, field.2.Explained) (kind : NodeKind) :
    (readParts file node kind fields).Explained := by
  unfold readParts
  extract_lets span part own
  have explained (key : String) : (part key).Explained := by
    unfold part
    split
    · rename_i field found
      exact (Field.find?_explained each found).expr
    · exact notExpression_explained file node
  cases kind with
  | literal => exact (readNumber_explained file _).map _
  | read => exact (readName_explained file _).map _
  | define => exact ((readName_explained file _).both (explained "value")).map _
  | binary =>
    exact ((readOperator_explained file _).both
      ((explained "left").both (explained "right"))).map _
  | guarded => exact ((explained "if").both (explained "then")).map _
  | function =>
    exact ((readParams_explained file _).both (readList_explained each file "body")).map _
  | call => exact ((explained "call").both (readList_explained each file "args")).map _

theorem readMapping_explained {entries : List Field}
    (each : ∀ field ∈ entries, field.Explained) : (readMapping file node entries).Explained := by
  obtain ⟨named, errors⟩ := Field.name_explained file each [] nofun
  unfold readMapping
  dsimp only
  split
  · rename_i complaints
    exact Reading.explained_none (by simpa using complaints) errors
  · split
    · exact explained_hint ..
    · split
      · exact readParts_explained named _
      · rename_i some
        exact Reading.explained_none some (keyErrors_errors file node _ _)
    · exact explained_nodeError ..

end Entries

/-! ## Nodes and documents -/

variable [Yaml.Library]

mutual

theorem readExpr_explained (file : String) : (node : Node) → (readExpr file node).Explained
  | .mapping mark tag entries => by
    rw [readExpr]
    exact readMapping_explained (readFields_explained file entries)
  | .scalar .. => by
    rw [readExpr]
    exact notExpression_explained ..
  | .sequence .. => by
    rw [readExpr]
    exact notExpression_explained ..
  | .reference .. => by
    rw [readExpr]
    exact notExpression_explained ..

theorem readItems_explained (file : String) :
    (items : List Node) → ∀ reading ∈ readItems file items, reading.Explained
  | [] => nofun
  | item :: rest => by
    rw [readItems]
    exact List.forall_mem_cons.mpr ⟨readExpr_explained file item, readItems_explained file rest⟩

theorem readOwnItems_explained (file : String) :
    (node : Node) → ∀ reading ∈ readOwnItems file node, reading.Explained
  | .sequence _ _ items => by
    rw [readOwnItems]
    exact readItems_explained file items
  | .mapping .. | .scalar .. | .reference .. => by simp [readOwnItems]

theorem readFields_explained (file : String) :
    (entries : List (Node × Node)) → ∀ field ∈ readFields file entries, field.Explained
  | [] => nofun
  | (key, value) :: rest => by
    rw [readFields]
    exact List.forall_mem_cons.mpr
      ⟨⟨readExpr_explained file value, readOwnItems_explained file value⟩,
        readFields_explained file rest⟩

end

theorem readRoot_explained (file : String) (root : Node) : (readRoot file root).Explained := by
  unfold readRoot
  split
  · exact Reading.explained_all (readItems_explained file _)
  · exact (readExpr_explained file _).map _
  · exact explained_nodeError ..

theorem readProgram_explained {file : String} {bytes : List UInt8} {diagnostics : List Diagnostic}
    (unread : readProgram file bytes = .error diagnostics) :
    diagnostics ≠ [] ∧ ∀ d ∈ diagnostics, d.code = Code.ast.text ∧ d.isError = true := by
  unfold readProgram at unread
  split at unread
  · rename_i document _
    cases document with
    | none => cases unread
    | some document =>
      obtain ⟨complains, errors⟩ := readRoot_explained file document.root
      simp only [readDocument] at unread
      split at unread
      · cases unread
      · rename_i noProgram
        cases unread
        refine ⟨fun clean => ?_, errors⟩
        cases value : (readRoot file document.root).value with
        | none => exact complains value clean
        | some statements => exact noProgram statements value clean
  · cases unread
    simp [Diagnostic.error, Diagnostic.isError]

end Sapling
