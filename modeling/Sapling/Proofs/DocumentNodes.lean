import Sapling.Proofs.DocumentGrammar
import Sapling.Proofs.NumberText
import Sapling.Proofs.Trees

/-!
# Documents of programs

Every tree without holes, whose operators are known and whose names are not empty, has a node that
spells it (`Expr.node_spells`).  Its numbers are written so that they are read as the same double,
down to the sign of zero (`resolve_numeral`).
-/

set_option autoImplicit false

namespace Sapling

open Yaml (Node Scalar)

/-! ## Numerals -/

namespace Number

/-- A text that is read as the double.  A finite one has an exponent, since without one some texts
are those of whole numbers, which have no negative zero. -/
def numeral (x : Float) : String :=
  match magnitude? x with
  | some _ => text x ++ "e0"
  | none => if x.isNaN then ".nan" else if isNegative x then "-.inf" else ".inf"

theorem digitsIn?_eq_none {base : Nat} (small : base < 15) {digits : List Char}
    (mark : 'e' ∈ digits) : digitsIn? base digits = none := by
  have stays : ∀ rest : List Char,
      rest.foldl (fun value c => do return (← value) * base + (← digitIn? base c)) none = none := by
    intro rest
    induction rest with
    | nil => rfl
    | cons c rest ih => exact ih
  have unread : digitIn? base 'e' = none := by
    have : base ≤ 14 := by omega
    simpa [digitIn?, Char.isDigit] using this
  unfold digitsIn?
  generalize some 0 = start
  induction digits generalizing start with
  | nil => cases mark
  | cons c rest ih =>
    rw [List.foldl_cons]
    rcases List.mem_cons.mp mark with rfl | later
    · rw [unread]
      cases start <;> exact stays rest
    · exact ih later _

end Number

namespace Yaml

theorem basedDigits?_eq_none {digits : List Char} (mark : 'e' ∈ digits)
    (decimal : ∀ c ∈ digits, c ≠ 'x' ∧ c ≠ 'X') : basedDigits? digits = none := by
  unfold basedDigits?
  split
  · rfl
  · rename_i b c rest
    have behind := decimal b (by simp)
    have mark : 'e' ∈ b :: c :: rest := by simpa using mark
    have later : b ≠ 'e' → 'e' ∈ c :: rest := by
      intro other
      exact (List.mem_cons.mp mark).resolve_left (Ne.symm other)
    split
    · rename_i two
      exact Number.digitsIn?_eq_none (by decide) (later (by rcases two with rfl | rfl <;> decide))
    · split
      · rename_i eight
        exact Number.digitsIn?_eq_none (by decide)
          (later (by rcases eight with rfl | rfl <;> decide))
      · rw [if_neg (by simp [behind])]
        exact Number.digitsIn?_eq_none (by decide) mark
  · exact Number.digitsIn?_eq_none (by decide) (by simpa using mark)
  · exact Number.digitsIn?_eq_none (by decide) mark

theorem basedInteger?_eq_none {text : List Char} (mark : 'e' ∈ text)
    (decimal : ∀ c ∈ text, c ≠ 'x' ∧ c ≠ 'X') : basedInteger? text = none := by
  have unsigned : basedDigits? (Number.signed text).2 = none := by
    unfold Number.signed
    split
    · exact basedDigits?_eq_none (by simpa using mark) fun c there => decimal c (by simp [there])
    · exact basedDigits?_eq_none (by simpa using mark) fun c there => decimal c (by simp [there])
    · exact basedDigits?_eq_none mark decimal
  unfold basedInteger?
  simp only [unsigned, basedDigits?_eq_none mark decimal]
  rfl

theorem ofText_of_startsNumeric {text : String} (start : Number.startsNumeric text.toList = true) :
    Scalar.ofText false text = numeric false text := by
  have apart : ∀ words : List String,
      (words.all fun word => !Number.startsNumeric word.toList) = true → text ∉ words := by
    intro words others there
    have := List.all_eq_true.mp others text there
    simp [start] at this
  have notSpecial : specialFloat? text = none := by
    unfold specialFloat?
    rw [if_neg (apart _ (by decide)), if_neg (apart _ (by decide)), if_neg (apart _ (by decide))]
  unfold Scalar.ofText
  rw [if_neg (apart _ (by decide)), if_neg (apart _ (by decide)), if_neg (apart _ (by decide)),
    notSpecial]
  dsimp only
  cases same : text.toList with
  | nil => simp [same, Number.startsNumeric] at start
  | cons c rest =>
    rw [same] at start
    have first := Number.startsNumeric_cons start
    have notPoint : c ≠ '.' := by
      rintro rfl
      rcases first with first | first <;> exact absurd first (by decide)
    dsimp only
    rw [if_neg notPoint, if_pos (by rcases first with rfl | digit <;> simp_all)]

theorem ofText_numeral {x : Float} {m : Magnitude} (finite : Number.magnitude? x = some m) :
    Scalar.ofText false (Number.numeral x) = .float x := by
  have written : Number.numeral x = Number.text x ++ "e0" := by simp [Number.numeral, finite]
  have letters : (Number.numeral x).toList = (Number.text x).toList ++ ['e', '0'] := by
    rw [written, String.toList_append]
    rfl
  have plain : ∀ c ∈ (Number.numeral x).toList, c ∉ ['_', 'x', 'X'] := by
    intro c there odd
    have odd : c = '_' ∨ c = 'x' ∨ c = 'X' := by simpa using odd
    rw [letters, List.mem_append] at there
    rcases there with number | idle
    · have char := Number.text_chars finite c number
      rcases odd with rfl | rfl | rfl <;> exact absurd char (by decide)
    · rcases odd with rfl | rfl | rfl <;> exact absurd idle (by decide)
  have noUnderscore : (Number.numeral x).toList.filter (· != '_') = (Number.numeral x).toList := by
    rw [List.filter_eq_self]
    intro c there
    have := plain c there
    simp_all
  have notWhole : basedInteger? (Number.numeral x).toList = none := by
    refine basedInteger?_eq_none (by simp [letters]) fun c there => ?_
    have := plain c there
    simp_all
  rw [ofText_of_startsNumeric]
  · simp only [numeric, Bool.false_and, Bool.false_eq_true, if_false, noUnderscore, notWhole]
    rw [letters, Number.float?_text finite (.inr rfl)]
  · rw [letters]
    exact Number.startsNumeric_text finite _

theorem resolve_numeral (x : Float) :
    Scalar.resolve "!!float" (Number.numeral x) = .ok (.float x) := by
  have found : Scalar.ofText false (Number.numeral x) = .float x := by
    cases finite : Number.magnitude? x with
    | none =>
      rcases Number.eq_of_magnitude?_eq_none finite with rfl | rfl | rfl <;> rfl
    | some m => exact ofText_numeral finite
  have short : shortTag "!!float" = "!!float" := by decide
  have tagged : "!!float".isEmpty = false := by decide
  simp [Scalar.resolve, short, valueTags, tagged, found, Scalar.tag]

/-- A library that reads every number back from its numeral. -/
class ReadsNumerals [Library] : Prop where
  resolve_numeral (x : Float) : Library.resolve "!!float" (Number.numeral x) = .ok (.float x)

instance : ReadsNumerals := ⟨resolve_numeral⟩

end Yaml

/-! ## Nodes -/

def Span.mark (span : Span) : Yaml.Mark := ⟨0, (span.line - 1).toNat, (span.column - 1).toNat⟩

/-- The place in the file, or the nearest one if there is no such line or column. -/
def Span.within (file : String) (span : Span) : Span := ⟨file, max 1 span.line, max 1 span.column⟩

def word (text : String) : Node := .scalar .start "!!str" .doubleQuoted text

mutual

def Expr.node : Expr → Node
  | .hole => .scalar .start "!!null" .plain ""
  | .literal span value =>
    .mapping span.mark "!!map"
      [(word "lit", .scalar .start "!!float" .plain (Number.numeral value))]
  | .read span name => .mapping span.mark "!!map" [(word "get", word name)]
  | .define span name value =>
    .mapping span.mark "!!map" [(word "let", word name), (word "value", value.node)]
  | .binary span symbol left right =>
    .mapping span.mark "!!map"
      [(word "op", word symbol), (word "left", left.node), (word "right", right.node)]
  | .guarded span condition consequent =>
    .mapping span.mark "!!map" [(word "if", condition.node), (word "then", consequent.node)]
  | .function span params body =>
    .mapping span.mark "!!map"
      [(word "fn", .sequence .start "!!seq" (params.map word)),
        (word "body", .sequence .start "!!seq" (nodes body))]
  | .call span callee args =>
    .mapping span.mark "!!map"
      [(word "call", callee.node), (word "args", .sequence .start "!!seq" (nodes args))]

def Expr.nodes : List Expr → List Node
  | [] => []
  | expr :: rest => expr.node :: nodes rest

end

def Program.document (program : Program) : Yaml.Document :=
  ⟨.sequence .start "!!seq" (Expr.nodes program.statements), []⟩

/-- What a document can say of one node: it is there, its operator is known and its names are not
empty. -/
def Expr.Spellable : Expr → Prop
  | .hole => False
  | .literal .. | .guarded .. | .call .. => True
  | .read _ name | .define _ name _ => name ≠ ""
  | .binary _ symbol _ _ => ∃ op : Operator, symbol = op.symbol
  | .function _ params _ => "" ∉ params

theorem Span.ofNode_mark (file : String) (span : Span) (tag : String)
    (entries : List (Node × Node)) :
    Span.ofNode file (.mapping span.mark tag entries) = span.within file := by
  simp only [Span.ofNode, Span.within, Node.line, Node.column, Node.mark, Span.mark]
  congr 1 <;> omega

theorem spellsParams_words {params : List String} (named : "" ∉ params) :
    SpellsParams (.sequence .start "!!seq" (params.map word)) params := by
  refine .list _ _ ?_
  induction params with
  | nil => exact .nil
  | cons name rest ih =>
    obtain ⟨here, later⟩ := not_or.mp (mt List.mem_cons.mpr named)
    exact .cons (.scalar _ _ _ (Ne.symm here)) (ih later)

theorem fields_listed (key other : String) (own list : Node) :
    Fields [(word key, own), (word other, list)] ((key, own) :: optionalField other (some list)) :=
  ⟨_, .refl _, rfl⟩

section Spelled
variable [Yaml.Library]

theorem spellsAll_nodes {file : String} {f : Span → Span} {exprs : List Expr}
    (each : ∀ expr ∈ exprs, Spells file expr.node (expr.mapSpans f)) :
    SpellsAll file (Expr.nodes exprs) (Expr.mapSpansAll f exprs) := by
  induction exprs with
  | nil => exact .nil
  | cons expr rest ih =>
    obtain ⟨first, others⟩ := List.forall_mem_cons.mp each
    exact .cons first (ih others)

theorem Expr.node_spells [Yaml.ReadsNumerals] {file : String} (expr : Expr)
    (good : expr.Everywhere Spellable) :
    Spells file expr.node (expr.mapSpans (Span.within file)) := by
  induction expr using Expr.children_induction with
  | node expr ih =>
    obtain ⟨here, below⟩ := everywhere_iff.mp good
    replace ih := fun child member => ih child member (below child member)
    cases expr with
    | hole => exact here.elim
    | literal span value =>
      rw [mapSpans, ← Span.ofNode_mark]
      have read := Yaml.ReadsNumerals.resolve_numeral value
      exact .literal ⟨_, .refl _, rfl⟩ (.float (.inr rfl) read)
    | read span name =>
      rw [mapSpans, ← Span.ofNode_mark]
      exact .read ⟨_, .refl _, rfl⟩ (.scalar _ _ _ here)
    | define span name value =>
      rw [mapSpans, ← Span.ofNode_mark]
      exact .define ⟨_, .refl _, rfl⟩ (.scalar _ _ _ here) (ih value (by simp [children]))
    | binary span symbol left right =>
      obtain ⟨op, rfl⟩ := here
      rw [mapSpans, ← Span.ofNode_mark]
      exact .binary ⟨_, .refl _, rfl⟩ (.scalar _ _ _ op) (ih left (by simp [children]))
        (ih right (by simp [children]))
    | guarded span condition consequent =>
      rw [mapSpans, ← Span.ofNode_mark]
      exact .guarded ⟨_, .refl _, rfl⟩ (ih condition (by simp [children]))
        (ih consequent (by simp [children]))
    | function span params body =>
      rw [mapSpans, ← Span.ofNode_mark]
      exact .function (fields_listed ..) (spellsParams_words here)
        (.list _ _ (spellsAll_nodes ih))
    | call span callee args =>
      rw [mapSpans, ← Span.ofNode_mark]
      exact .call (fields_listed ..) (ih callee (by simp [children]))
        (.list _ _ (spellsAll_nodes fun arg member => ih arg (by simp [children, member])))

theorem Program.document_spells [Yaml.ReadsNumerals] {file : String} {program : Program}
    (good : ∀ statement ∈ program.statements, statement.Everywhere Expr.Spellable) :
    SpellsDocument file (some program.document)
      ⟨⟨file, 1, 1⟩, program.statements.map (Expr.mapSpans (Span.within file))⟩ := by
  rw [← Expr.mapSpansAll_eq_map]
  exact .list _ _ [] (spellsAll_nodes fun statement member =>
    statement.node_spells (good statement member))

/-- A document is read as a program exactly when it spells it, and it spells only one.  A program
that a document can spell is recovered from its own document; its nodes then stand in the file, and
if they stood there already nothing has changed. -/
theorem documents_read_by_grammar (file : String) :
    (∀ document program,
      readDocument file document = .ok program ↔ SpellsDocument file document program) ∧
    (∀ document first second, SpellsDocument file document first →
      SpellsDocument file document second → first = second) ∧
    (Yaml.ReadsNumerals → ∀ program : Program,
      (∀ statement ∈ program.statements, statement.Everywhere Expr.Spellable) →
      readDocument file (some program.document)
        = .ok ⟨⟨file, 1, 1⟩, program.statements.map (Expr.mapSpans (Span.within file))⟩) ∧
    (Yaml.ReadsNumerals → ∀ program : Program, program.span = ⟨file, 1, 1⟩ →
      (∀ statement ∈ program.statements,
        statement.Everywhere fun node => node.Spellable ∧ node.span.within file = node.span) →
      readDocument file (some program.document) = .ok program) := by
  have recovered : Yaml.ReadsNumerals → ∀ program : Program,
      (∀ statement ∈ program.statements, statement.Everywhere Expr.Spellable) →
      readDocument file (some program.document)
        = .ok ⟨⟨file, 1, 1⟩, program.statements.map (Expr.mapSpans (Span.within file))⟩ :=
    fun _ program good => readDocument_eq_ok_iff.mpr (program.document_spells good)
  refine ⟨fun document program => readDocument_eq_ok_iff, ?_, recovered, ?_⟩
  · intro document first second one other
    have := (readDocument_eq_ok_iff.mpr one).symm.trans (readDocument_eq_ok_iff.mpr other)
    exact Except.ok.inj this
  · intro numerals program place good
    have unmoved :
        program.statements.map (Expr.mapSpans (Span.within file)) = program.statements := by
      rw [List.map_congr_left fun statement member =>
        statement.mapSpans_eq_self ((good statement member).imp fun _ both => both.2), List.map_id']
    have spellable (statement : Expr) (member : statement ∈ program.statements) :
        statement.Everywhere Expr.Spellable :=
      (good statement member).imp fun _ both => both.1
    rw [recovered numerals program spellable, unmoved, ← place]

end Spelled

def Program.countsDown : Program :=
  let here : Span := ⟨"tree.yaml", 2, 3⟩
  ⟨⟨"tree.yaml", 1, 1⟩,
    [.define here "count" (.function here ["n"]
      [.guarded here (.binary here ">" (.read here "n") (.literal here (-0.0)))
        (.call here (.read here "count") [.binary here "-" (.read here "n") (.literal here 1)])])]⟩

theorem documents_read_by_grammar_countsDown :
    (∀ statement ∈ Program.countsDown.statements, statement.Everywhere fun node =>
      node.Spellable ∧ node.span.within "tree.yaml" = node.span) ∧
    readDocument "tree.yaml" (some Program.countsDown.document) = .ok Program.countsDown := by
  have placed : (⟨"tree.yaml", 2, 3⟩ : Span).within "tree.yaml" = ⟨"tree.yaml", 2, 3⟩ := by decide
  have greater : ∃ op : Operator, ">" = op.symbol := ⟨.greater, rfl⟩
  have minus : ∃ op : Operator, "-" = op.symbol := ⟨.subtract, rfl⟩
  have good : ∀ statement ∈ Program.countsDown.statements, statement.Everywhere fun node =>
      node.Spellable ∧ node.span.within "tree.yaml" = node.span := by
    simp [Program.countsDown, Expr.Everywhere, Expr.everywhereAll, Expr.Spellable, Expr.span,
      placed, greater, minus]
  have recovered := (documents_read_by_grammar "tree.yaml").2.2.2 inferInstance
  exact ⟨good, recovered Program.countsDown rfl good⟩

end Sapling
