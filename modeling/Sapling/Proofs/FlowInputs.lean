import Mathlib.Algebra.Group.Nat.Even
import Mathlib.Data.List.Infix
import Sapling.Repl.Loop

/-!
# Inputs that go on over several lines

An input goes on while a bracket is open.  What is typed is a flow value: collections in brackets,
one inside another, with plain and quoted scalars for leaves.  The scanner that looks for open
brackets knows quotation marks but no escapes, so it takes an escaped mark for the end of a scalar.

A token is neutral when the scanner, run on it alone, ends outside quoted text with the brackets
that the token really opens or closes, and never below the depth it started from.  Every token that
is no double-quoted scalar is neutral.  The scanner follows the texts over a class of double-quoted
scalars exactly when all of them are neutral (`followed_iff_neutral`), and the loop then acts on a
collection after its last line and not before (`Loop.run_collection`).
-/

set_option autoImplicit false

namespace Sapling.Repl

/-! ## Flow values -/

namespace Flow

inductive Bracket
  | curly
  | square

namespace Bracket

def opening : Bracket → UInt8
  | curly => 123
  | square => 91

def closing : Bracket → UInt8
  | curly => 125
  | square => 93

end Bracket

def isBlank (byte : UInt8) : Bool := byte == 32 || byte == 9 || byte == 10 || byte == 13

def isInert (byte : UInt8) : Bool := !(isQuote byte || isOpening byte || isClosing byte)

structure Gap where
  bytes : List UInt8
  blank : bytes.all isBlank = true

structure Plain where
  bytes : List UInt8
  inert : bytes.all isInert = true

/-- A piece of a double-quoted scalar: a byte that stands for itself, or a backslash with the byte
that it escapes. -/
inductive Piece
  | byte (value : UInt8) (ordinary : value ≠ 34 ∧ value ≠ 92)
  | escape (value : UInt8)

namespace Piece

def bytes : Piece → List UInt8
  | byte value _ => [value]
  | escape value => [92, value]

def isEscapedQuote : Piece → Bool
  | byte .. => false
  | escape value => value == 34

end Piece

inductive Token
  | opening (bracket : Bracket)
  | closing (bracket : Bracket)
  | comma
  | colon
  | gap (blanks : Gap)
  | plain (text : Plain)
  | single (content : List UInt8)
  | double (pieces : List Piece)

/-- In a single-quoted scalar the quotation mark is written twice. -/
def doubled (byte : UInt8) : List UInt8 := if byte = 39 then [39, 39] else [byte]

namespace Token

def bytes : Token → List UInt8
  | opening bracket => [bracket.opening]
  | closing bracket => [bracket.closing]
  | comma => [44]
  | colon => [58]
  | gap blanks => blanks.bytes
  | plain text => text.bytes
  | single content => 39 :: (content.flatMap doubled ++ [39])
  | double pieces => 34 :: (pieces.flatMap Piece.bytes ++ [34])

def weight : Token → Int
  | opening _ => 1
  | closing _ => -1
  | _ => 0

end Token

def unclosed : List Token → Int
  | [] => 0
  | token :: rest => token.weight + unclosed rest

def textOf (tokens : List Token) : List UInt8 := tokens.flatMap Token.bytes

/-- The tokens that end within so many bytes. -/
def within : List Token → Nat → List Token
  | [], _ => []
  | token :: rest, size =>
    if token.bytes.length ≤ size then token :: within rest (size - token.bytes.length) else []

end Flow

mutual

inductive Flow
  | plain (text : Flow.Plain)
  | single (content : List UInt8)
  | double (pieces : List Flow.Piece)
  | collection (bracket : Flow.Bracket) (items : Items)

inductive Items
  | nothing (gap : Flow.Gap)
  | last (before : Flow.Gap) (item : Item) (behind : Flow.Gap)
  | more (before : Flow.Gap) (item : Item) (behind : Flow.Gap) (others : Items)

inductive Item
  | value (value : Flow)
  | pair (key : Flow) (before behind : Flow.Gap) (value : Flow)

end

mutual

def Flow.tokens : Flow → List Flow.Token
  | .plain text => [.plain text]
  | .single content => [.single content]
  | .double pieces => [.double pieces]
  | .collection bracket items => .opening bracket :: (items.tokens ++ [.closing bracket])

def Items.tokens : Items → List Flow.Token
  | .nothing gap => [.gap gap]
  | .last before item behind => .gap before :: (item.tokens ++ [.gap behind])
  | .more before item behind others =>
    .gap before :: (item.tokens ++ .gap behind :: .comma :: others.tokens)

def Item.tokens : Item → List Flow.Token
  | .value value => value.tokens
  | .pair key before behind value =>
    key.tokens ++ .gap before :: .colon :: .gap behind :: value.tokens

end

namespace Flow

def text (flow : Flow) : List UInt8 := textOf flow.tokens

def isCollection : Flow → Bool
  | collection .. => true
  | _ => false

/-- The scanner is right about a text: the whole is complete, and a part of it that leaves a
collection open is not. -/
structure Followed (flow : Flow) : Prop where
  complete : isOpen flow.text = false
  incomplete : ∀ size < flow.text.length, 0 < unclosed (within flow.tokens size) →
    isOpen (flow.text.take size) = true

end Flow

/-! ## The scanner -/

namespace Nesting

def scan (nesting : Nesting) (bytes : List UInt8) : Nesting := bytes.foldl step nesting

@[simp]
theorem scan_nil (nesting : Nesting) : nesting.scan [] = nesting := rfl

@[simp]
theorem scan_cons (nesting : Nesting) (byte : UInt8) (rest : List UInt8) :
    nesting.scan (byte :: rest) = (nesting.step byte).scan rest := rfl

@[simp]
theorem scan_append (nesting : Nesting) (first second : List UInt8) :
    nesting.scan (first ++ second) = (nesting.scan first).scan second :=
  List.foldl_append

def raise (nesting : Nesting) (levels : Int) : Nesting := ⟨levels + nesting.depth, nesting.quote⟩

theorem step_raise (nesting : Nesting) (levels : Int) (byte : UInt8) :
    (nesting.raise levels).step byte = (nesting.step byte).raise levels := by
  obtain ⟨depth, quote⟩ := nesting
  cases quote with
  | some mark =>
    simp only [step, raise]
    split <;> rfl
  | none =>
    simp only [step, raise]
    split
    · rfl
    · split
      · simp only [Int.add_assoc]
      · split
        · simp only [Int.add_sub_assoc]
        · rfl

theorem scan_raise (nesting : Nesting) (levels : Int) (bytes : List UInt8) :
    (nesting.raise levels).scan bytes = (nesting.scan bytes).raise levels := by
  induction bytes generalizing nesting with
  | nil => rfl
  | cons byte rest ih => rw [scan_cons, scan_cons, step_raise, ih]

theorem scan_outside (depth : Int) (bytes : List UInt8) :
    scan ⟨depth, none⟩ bytes = (scan ⟨0, none⟩ bytes).raise depth := by
  have start : (⟨depth, none⟩ : Nesting) = raise ⟨0, none⟩ depth := by
    simp only [raise, Int.add_zero]
  rw [start, scan_raise]

theorem step_quote {mark : UInt8} (isMark : isQuote mark = true) (depth : Int) :
    step ⟨depth, none⟩ mark = ⟨depth, some mark⟩ := by
  simp [step, isMark]

theorem scan_inert {bytes : List UInt8} (inert : bytes.all Flow.isInert = true) :
    scan ⟨0, none⟩ bytes = ⟨0, none⟩ := by
  induction bytes with
  | nil => rfl
  | cons byte rest ih =>
    rw [List.all_cons, Bool.and_eq_true] at inert
    obtain ⟨first, others⟩ := inert
    have same : step ⟨0, none⟩ byte = ⟨0, none⟩ := by
      simp only [Flow.isInert, Bool.not_eq_true', Bool.or_eq_false_iff] at first
      simp [step, first]
    rw [scan_cons, same, ih others]

theorem scan_quoted {mark : UInt8} {bytes : List UInt8} (absent : mark ∉ bytes) :
    scan ⟨0, some mark⟩ bytes = ⟨0, some mark⟩ := by
  induction bytes with
  | nil => rfl
  | cons byte rest ih =>
    obtain ⟨differs, others⟩ := not_or.mp (mt List.mem_cons.mpr absent)
    have same : step ⟨0, some mark⟩ byte = ⟨0, some mark⟩ := if_neg (Ne.symm differs)
    rw [scan_cons, same, ih others]

end Nesting

theorem isOpen_iff {input : List UInt8} :
    isOpen input = true ↔ 0 < (Nesting.scan ⟨0, none⟩ input).depth := by
  rw [isOpen, decide_eq_true_eq]
  rfl

namespace Flow

/-! ## Neutral tokens -/

/-- The scanner, run on the token alone, finds what the token opens or closes and nothing else. -/
structure Token.Neutral (token : Token) : Prop where
  whole : Nesting.scan ⟨0, none⟩ token.bytes = ⟨token.weight, none⟩
  parts : ∀ size < token.bytes.length,
    0 ≤ (Nesting.scan ⟨0, none⟩ (token.bytes.take size)).depth

namespace Token

theorem neutral_inert {token : Token} (inert : token.bytes.all isInert = true)
    (weightless : token.weight = 0) : token.Neutral where
  whole := by rw [Nesting.scan_inert inert, weightless]
  parts := by
    intro size _
    have some : (token.bytes.take size).all isInert = true := by
      rw [List.all_eq_true] at inert ⊢
      exact fun byte isIn => inert byte (List.mem_of_mem_take isIn)
    exact Int.le_of_eq (by rw [Nesting.scan_inert some])

theorem neutral_byte {token : Token} {byte : UInt8} (one : token.bytes = [byte])
    (whole : Nesting.step ⟨0, none⟩ byte = ⟨token.weight, none⟩) : token.Neutral where
  whole := by rw [one, Nesting.scan_cons, whole, Nesting.scan_nil]
  parts := by
    intro size short
    rw [one, List.length_singleton] at short
    have none : size = 0 := by omega
    exact Int.le_of_eq (by rw [none, List.take_zero, Nesting.scan_nil])

theorem neutral_quoted {token : Token} {mark : UInt8} {body : List UInt8}
    (isMark : isQuote mark = true) (bytes : token.bytes = mark :: (body ++ [mark]))
    (weightless : token.weight = 0)
    (whole : Nesting.scan ⟨0, some mark⟩ body = ⟨0, some mark⟩)
    (parts : ∀ size, (Nesting.scan ⟨0, some mark⟩ (body.take size)).depth = 0) :
    token.Neutral where
  whole := by
    have ends : Nesting.step ⟨0, some mark⟩ mark = ⟨0, none⟩ := if_pos rfl
    rw [bytes, Nesting.scan_cons, Nesting.step_quote isMark, Nesting.scan_append, whole,
      Nesting.scan_cons, ends, weightless, Nesting.scan_nil]
  parts := by
    intro size short
    rw [bytes] at short ⊢
    cases size with
    | zero => exact Int.le_refl 0
    | succ size =>
      have inBody : size ≤ body.length := by
        simp only [List.length_cons, List.length_append, List.length_nil] at short
        omega
      rw [List.take_succ_cons, List.take_append_of_le_length inBody, Nesting.scan_cons,
        Nesting.step_quote isMark]
      exact Int.le_of_eq (parts size).symm

theorem scan_doubled (content : List UInt8) :
    Nesting.scan ⟨0, some 39⟩ (content.flatMap doubled) = ⟨0, some 39⟩ ∧
      ∀ size, (Nesting.scan ⟨0, some 39⟩ ((content.flatMap doubled).take size)).depth = 0 := by
  induction content with
  | nil => exact ⟨rfl, fun size => by rw [List.flatMap_nil, List.take_nil, Nesting.scan_nil]⟩
  | cons byte rest ih =>
    obtain ⟨whole, parts⟩ := ih
    rw [List.flatMap_cons, doubled]
    by_cases isMark : byte = 39
    · rw [if_pos isMark]
      refine ⟨whole, fun size => ?_⟩
      match size with
      | 0 => rfl
      | 1 => rfl
      | size + 2 => exact parts size
    · have stays : Nesting.step ⟨0, some 39⟩ byte = ⟨0, some 39⟩ := if_neg isMark
      rw [if_neg isMark, List.singleton_append]
      refine ⟨by rw [Nesting.scan_cons, stays, whole], fun size => ?_⟩
      cases size with
      | zero => rfl
      | succ size => rw [List.take_succ_cons, Nesting.scan_cons, stays, parts size]

theorem neutral_of_not_double {token : Token} (other : ∀ pieces, token ≠ double pieces) :
    token.Neutral := by
  cases token with
  | opening bracket => cases bracket <;> exact neutral_byte rfl rfl
  | closing bracket => cases bracket <;> exact neutral_byte rfl rfl
  | comma => exact neutral_byte rfl rfl
  | colon => exact neutral_byte rfl rfl
  | gap blanks =>
    refine neutral_inert ?_ rfl
    have blank := blanks.blank
    rw [List.all_eq_true] at blank
    refine List.all_eq_true.mpr fun byte isIn => ?_
    have cases := blank byte isIn
    simp only [isBlank, Bool.or_eq_true, beq_iff_eq] at cases
    rcases cases with ((rfl | rfl) | rfl) | rfl <;> decide
  | plain text => exact neutral_inert text.inert rfl
  | single content =>
    obtain ⟨whole, parts⟩ := scan_doubled content
    exact neutral_quoted (by decide) rfl rfl whole parts
  | double pieces => exact absurd rfl (other pieces)

end Token

/-! ## Double-quoted scalars -/

theorem count_quotes (pieces : List Piece) :
    (pieces.flatMap Piece.bytes).count 34 = pieces.countP Piece.isEscapedQuote := by
  induction pieces with
  | nil => rfl
  | cons piece rest ih =>
    rw [List.flatMap_cons, List.count_append, ih, List.countP_cons, Nat.add_comm]
    congr 1
    cases piece with
    | byte value ordinary => simp [Piece.bytes, Piece.isEscapedQuote, ordinary.1]
    | escape value => simp [Piece.bytes, Piece.isEscapedQuote, List.count_cons]

theorem neutral_of_no_quote {pieces : List Piece}
    (none : pieces.countP Piece.isEscapedQuote = 0) : (Token.double pieces).Neutral := by
  have absent : 34 ∉ pieces.flatMap Piece.bytes := by
    rw [← List.count_eq_zero, count_quotes, none]
  refine Token.neutral_quoted (by decide) rfl rfl (Nesting.scan_quoted absent) fun size => ?_
  rw [Nesting.scan_quoted fun isIn => absent (List.mem_of_mem_take isIn)]

def isBare (byte : UInt8) : Bool := !(byte == 39 || isOpening byte || isClosing byte)

theorem scan_bare {bytes : List UInt8} (bare : bytes.all isBare = true) :
    (Nesting.scan ⟨0, none⟩ bytes =
        ⟨0, if Even (bytes.count 34) then none else some 34⟩) ∧
      Nesting.scan ⟨0, some 34⟩ bytes =
        ⟨0, if Even (bytes.count 34) then some 34 else none⟩ := by
  induction bytes with
  | nil => exact ⟨rfl, rfl⟩
  | cons byte rest ih =>
    rw [List.all_cons, Bool.and_eq_true] at bare
    obtain ⟨first, others⟩ := bare
    obtain ⟨outside, inside⟩ := ih others
    by_cases isMark : byte = 34
    · subst isMark
      have starts : Nesting.step ⟨0, none⟩ 34 = ⟨0, some 34⟩ := rfl
      have ends : Nesting.step ⟨0, some 34⟩ 34 = ⟨0, none⟩ := rfl
      rw [Nesting.scan_cons, Nesting.scan_cons, starts, ends, outside, inside,
        List.count_cons_self]
      simp only [Nat.even_add_one, ite_not, and_self]
    · have skips : Nesting.step ⟨0, none⟩ byte = ⟨0, none⟩ := by
        simp only [isBare, Bool.not_eq_true', Bool.or_eq_false_iff, beq_eq_false_iff_ne] at first
        simp [Nesting.step, isQuote, isMark, first]
      have stays : Nesting.step ⟨0, some 34⟩ byte = ⟨0, some 34⟩ := if_neg isMark
      rw [Nesting.scan_cons, Nesting.scan_cons, skips, stays, outside, inside,
        List.count_cons_of_ne isMark]
      exact ⟨rfl, rfl⟩

/-- Without brackets and apostrophes in it, a scalar is neutral exactly when its escaped quotation
marks come in twos. -/
theorem neutral_bare_iff {pieces : List Piece}
    (bare : (pieces.flatMap Piece.bytes).all isBare = true) :
    (Token.double pieces).Neutral ↔ Even (pieces.countP Piece.isEscapedQuote) := by
  have all : (Token.double pieces).bytes.all isBare = true := by
    simp only [Token.bytes, List.all_cons, List.all_append, bare]
    decide
  have marks : (Token.double pieces).bytes.count 34 =
      pieces.countP Piece.isEscapedQuote + 2 := by
    rw [Token.bytes, List.count_cons_self, List.count_append, count_quotes]
    rfl
  have scanned := (scan_bare all).1
  have inTwos : Even ((Token.double pieces).bytes.count 34) ↔
      Even (pieces.countP Piece.isEscapedQuote) := by
    rw [marks, Nat.even_add]
    exact iff_true_right (by decide)
  simp only [inTwos] at scanned
  constructor
  · intro neutral
    by_contra odd
    rw [if_neg odd, neutral.whole] at scanned
    cases scanned
  · intro even
    refine ⟨by rw [scanned, if_pos even]; rfl, fun size _ => ?_⟩
    have some : ((Token.double pieces).bytes.take size).all isBare = true := by
      rw [List.all_eq_true] at all ⊢
      exact fun byte isIn => all byte (List.mem_of_mem_take isIn)
    exact Int.le_of_eq (by rw [(scan_bare some).1])

/-! ## Texts of neutral tokens -/

@[simp]
theorem unclosed_nil : unclosed [] = 0 := rfl

@[simp]
theorem unclosed_cons (token : Token) (rest : List Token) :
    unclosed (token :: rest) = token.weight + unclosed rest := rfl

@[simp]
theorem unclosed_append (first second : List Token) :
    unclosed (first ++ second) = unclosed first + unclosed second := by
  induction first with
  | nil => rw [List.nil_append, unclosed_nil, Int.zero_add]
  | cons token rest ih => rw [List.cons_append, unclosed_cons, unclosed_cons, ih, Int.add_assoc]

theorem textOf_cons (token : Token) (rest : List Token) :
    textOf (token :: rest) = token.bytes ++ textOf rest := List.flatMap_cons

section Neutral
variable {tokens : List Token} (neutral : ∀ token ∈ tokens, token.Neutral)
include neutral

theorem scan_textOf : Nesting.scan ⟨0, none⟩ (textOf tokens) = ⟨unclosed tokens, none⟩ := by
  induction tokens with
  | nil => rfl
  | cons token rest ih =>
    obtain ⟨first, others⟩ := List.forall_mem_cons.mp neutral
    rw [textOf_cons, Nesting.scan_append, first.whole, Nesting.scan_outside, ih others,
      unclosed_cons]
    rfl

/-- At every cut the scanner counts at least the collections that are open there. -/
theorem unclosed_within_le (size : Nat) :
    unclosed (within tokens size) ≤
      (Nesting.scan ⟨0, none⟩ ((textOf tokens).take size)).depth := by
  induction tokens generalizing size with
  | nil => simp [within, textOf]
  | cons token rest ih =>
    obtain ⟨first, others⟩ := List.forall_mem_cons.mp neutral
    rw [within, textOf_cons, List.take_append]
    by_cases fits : token.bytes.length ≤ size
    · have later := ih others (size - token.bytes.length)
      rw [if_pos fits, List.take_of_length_le fits, Nesting.scan_append, first.whole,
        Nesting.scan_outside, unclosed_cons]
      exact Int.add_le_add_left later _
    · have cut : size - token.bytes.length = 0 := by omega
      rw [if_neg fits, cut, List.take_zero, List.append_nil]
      exact first.parts size (by omega)

end Neutral

/-! ## Nesting of collections -/

/-- No collection is closed that was not opened, and all are closed in the end. -/
structure Balanced (tokens : List Token) : Prop where
  sane : ∀ before, before <+: tokens → 0 ≤ unclosed before
  settled : unclosed tokens = 0

theorem Balanced.append {first second : List Token} (left : Balanced first)
    (right : Balanced second) : Balanced (first ++ second) where
  sane := by
    intro before isBefore
    rcases List.prefix_or_prefix_of_prefix isBefore (List.prefix_append first second) with
      early | late
    · exact left.sane before early
    · obtain ⟨more, rfl⟩ := late
      have within := right.sane more ((List.prefix_append_right_inj first).mp isBefore)
      rw [unclosed_append, left.settled]
      omega
  settled := by rw [unclosed_append, left.settled, right.settled]; rfl

theorem balanced_weightless {token : Token} {rest : List Token} (weightless : token.weight = 0)
    (balanced : Balanced rest) : Balanced (token :: rest) where
  sane := by
    intro before isBefore
    rcases List.prefix_cons_iff.mp isBefore with rfl | ⟨more, rfl, isMore⟩
    · exact Int.le_refl 0
    · have within := balanced.sane more isMore
      rw [unclosed_cons, weightless]
      omega
  settled := by rw [unclosed_cons, weightless, balanced.settled]; rfl

theorem balanced_nil : Balanced [] := by
  refine ⟨fun before isBefore => ?_, rfl⟩
  rw [List.prefix_nil.mp isBefore]
  exact Int.le_refl 0

theorem Balanced.inside {inner : List Token} (balanced : Balanced inner) (bracket : Bracket)
    {before : List Token} (isBefore : before <+: inner) :
    0 < unclosed (.opening bracket :: before) := by
  have sane := balanced.sane before isBefore
  rw [unclosed_cons, Token.weight]
  omega

theorem Balanced.enclosed {inner : List Token} (balanced : Balanced inner) (bracket : Bracket) :
    Balanced (.opening bracket :: (inner ++ [.closing bracket])) := by
  have settled : unclosed (.opening bracket :: (inner ++ [.closing bracket])) = 0 := by
    rw [unclosed_cons, unclosed_append, balanced.settled]
    rfl
  refine ⟨fun before isBefore => ?_, settled⟩
  rcases List.prefix_cons_iff.mp isBefore with rfl | ⟨more, rfl, isMore⟩
  · exact Int.le_refl 0
  · rcases List.prefix_concat_iff.mp isMore with rfl | isInner
    · exact Int.le_of_eq settled.symm
    · exact Int.le_of_lt (balanced.inside bracket isInner)

mutual

theorem tokens_balanced : (flow : Flow) → Balanced flow.tokens
  | .plain _ | .single _ | .double _ => balanced_weightless rfl balanced_nil
  | .collection bracket items => (items_balanced items).enclosed bracket

theorem items_balanced : (items : Items) → Balanced items.tokens
  | .nothing _ => balanced_weightless rfl balanced_nil
  | .last _ item _ =>
    balanced_weightless rfl ((item_balanced item).append (balanced_weightless rfl balanced_nil))
  | .more _ item _ others =>
    balanced_weightless rfl ((item_balanced item).append
      (balanced_weightless rfl (balanced_weightless rfl (items_balanced others))))

theorem item_balanced : (item : Item) → Balanced item.tokens
  | .value value => tokens_balanced value
  | .pair key _ _ value =>
    (tokens_balanced key).append (balanced_weightless rfl
      (balanced_weightless rfl (balanced_weightless rfl (tokens_balanced value))))

end

theorem within_isPrefix (tokens : List Token) (size : Nat) :
    within tokens size <+: tokens ∧ (textOf (within tokens size)).length ≤ size := by
  induction tokens generalizing size with
  | nil => exact ⟨List.prefix_rfl, Nat.zero_le _⟩
  | cons token rest ih =>
    rw [within]
    by_cases fits : token.bytes.length ≤ size
    · obtain ⟨isBefore, short⟩ := ih (size - token.bytes.length)
      rw [if_pos fits, textOf_cons, List.length_append]
      exact ⟨(List.prefix_cons_inj token).mpr isBefore, by omega⟩
    · rw [if_neg fits]
      exact ⟨List.nil_prefix, Nat.zero_le _⟩

theorem unclosed_within_pos (bracket : Bracket) (items : Items) {size : Nat} (some : 0 < size)
    (short : size < (collection bracket items).text.length) :
    0 < unclosed (within (collection bracket items).tokens size) := by
  have tokens : (collection bracket items).tokens =
      .opening bracket :: (items.tokens ++ [.closing bracket]) := by rw [Flow.tokens]
  obtain ⟨isBefore, fits⟩ := within_isPrefix (collection bracket items).tokens size
  have notAll : within (collection bracket items).tokens size ≠
      (collection bracket items).tokens := by
    intro all
    rw [all] at fits
    exact absurd short (Nat.not_lt.mpr fits)
  have starts : within (collection bracket items).tokens size ≠ [] := by
    rw [tokens, within, if_pos (show (Token.opening bracket).bytes.length ≤ size from some)]
    exact List.cons_ne_nil _ _
  rw [tokens] at isBefore notAll starts ⊢
  rcases List.prefix_cons_iff.mp isBefore with nothing | ⟨more, same, isMore⟩
  · exact absurd nothing starts
  · rcases List.prefix_concat_iff.mp isMore with all | isInner
    · exact absurd (same.trans (congrArg _ all)) notAll
    · rw [same]
      exact (items_balanced items).inside bracket isInner

/-! ## What the scanner follows -/

theorem followed_of_neutral {flow : Flow} (neutral : ∀ token ∈ flow.tokens, token.Neutral) :
    flow.Followed where
  complete := by
    rw [Bool.eq_false_iff, ne_eq, isOpen_iff, text, scan_textOf neutral,
      (tokens_balanced flow).settled]
    exact Int.lt_irrefl 0
  incomplete := by
    intro size _ unclosed
    rw [isOpen_iff]
    exact Int.lt_of_lt_of_le unclosed (unclosed_within_le neutral size)

def alone (pieces : List Piece) : Flow :=
  .collection .square (.last ⟨[], rfl⟩ (.value (.double pieces)) ⟨[], rfl⟩)

theorem alone_text (pieces : List Piece) :
    (alone pieces).text = 91 :: ((Token.double pieces).bytes ++ [93]) := by
  simp [alone, text, textOf, Flow.tokens, Items.tokens, Item.tokens, Token.bytes, Bracket.opening,
    Bracket.closing]

theorem neutral_of_alone {pieces : List Piece} (followed : (alone pieces).Followed) :
    (Token.double pieces).Neutral := by
  have size : (alone pieces).text.length = (Token.double pieces).bytes.length + 2 := by
    rw [alone_text, List.length_cons, List.length_append, List.length_singleton]
  have opens : Nesting.step ⟨0, none⟩ 91 = ⟨1, none⟩ := rfl
  -- the bracket is open in front of every byte of the scalar and in front of the closing bracket
  have parts : ∀ count ≤ (Token.double pieces).bytes.length,
      0 ≤ (Nesting.scan ⟨0, none⟩ ((Token.double pieces).bytes.take count)).depth := by
    intro count inside
    have short : count + 1 < (alone pieces).text.length := by omega
    have isOpened := followed.incomplete (count + 1) short
      (unclosed_within_pos _ _ (Nat.succ_pos count) short)
    rw [isOpen_iff, alone_text, List.take_succ_cons, List.take_append_of_le_length inside,
      Nesting.scan_cons, opens, Nesting.scan_outside] at isOpened
    simp only [Nesting.raise] at isOpened
    omega
  have last := parts _ (Nat.le_refl _)
  rw [List.take_length] at last
  have complete := followed.complete
  refine ⟨?_, fun count inside => parts count (Nat.le_of_lt inside)⟩
  rw [Bool.eq_false_iff, ne_eq, isOpen_iff, alone_text, Nesting.scan_cons, opens,
    Nesting.scan_append, Nesting.scan_outside] at complete
  cases scanned : Nesting.scan ⟨0, none⟩ (Token.double pieces).bytes with
  | mk depth quote =>
    rw [scanned] at complete last
    cases quote with
    | none =>
      have closes : (Nesting.raise ⟨depth, none⟩ 1).scan [93] = ⟨1 + depth - 1, none⟩ := rfl
      rw [closes] at complete
      have settled : depth = 0 := by
        simp only at complete last
        omega
      rw [settled]
      rfl
    | some mark =>
      -- inside quoted text the closing bracket does not count
      have atLeast : 1 + depth ≤ ((Nesting.raise ⟨depth, some mark⟩ 1).scan [93]).depth := by
        simp only [Nesting.raise, Nesting.scan_cons, Nesting.scan_nil, Nesting.step]
        split <;> exact Int.le_refl _
      simp only at complete last
      omega

/-- The scanner follows all values over a class of double-quoted scalars exactly when each scalar of
the class is neutral. -/
theorem followed_iff_neutral (allowed : List Piece → Prop) :
    (∀ flow : Flow, (∀ pieces, .double pieces ∈ flow.tokens → allowed pieces) → flow.Followed) ↔
      ∀ pieces, allowed pieces → (Token.double pieces).Neutral := by
  constructor
  · intro followed pieces isAllowed
    refine neutral_of_alone (followed (alone pieces) fun others isToken => ?_)
    have same : others = pieces := by
      simpa [alone, Flow.tokens, Items.tokens, Item.tokens] using isToken
    rw [same]
    exact isAllowed
  · intro neutral flow allAllowed
    apply followed_of_neutral
    intro token isToken
    by_cases isDouble : ∃ pieces, token = .double pieces
    · obtain ⟨pieces, rfl⟩ := isDouble
      exact neutral pieces (allAllowed pieces isToken)
    · exact Token.neutral_of_not_double fun pieces same => isDouble ⟨pieces, same⟩

end Flow

/-! ## Lines of an input -/

def typed (first : List UInt8) (rest : List (List UInt8)) : List UInt8 :=
  first ++ rest.flatMap fun line => Text.lineFeed :: line

def Said.prompted (said : Said) (prompt : String) (rest : List (List UInt8)) : Said :=
  rest.foldl (fun said _ => said ++ .onOut furtherPrompt) (said ++ .onOut prompt)

theorem Said.append_nothing (said : Said) : said ++ Said.nothing = said := by
  show Said.append said Said.nothing = said
  simp only [Said.append, Said.nothing, String.append_empty]

namespace Loop

def submit [Yaml.Library] (loop : Loop) (said : Said) (input : List UInt8)
    (behind : List Prompted) : Task (Loop × Said) := do
  let (loop, more, ends) ← { loop with pending := [] }.act input
  if ends then return (loop, said ++ more) else loop.run (said ++ more) behind

def extended (loop : Loop) (line : List UInt8) : List UInt8 :=
  if loop.pending.isEmpty then line else loop.pending ++ Text.lineFeed :: line

theorem extended_further {loop : Loop} (goesOn : loop.pending ≠ []) (line : List UInt8) :
    loop.extended line = loop.pending ++ Text.lineFeed :: line := by
  simp [extended, goesOn]

theorem prompt_further {loop : Loop} (goesOn : loop.pending ≠ []) :
    loop.prompt = furtherPrompt := by
  simp [prompt, goesOn]

variable [Yaml.Library]

theorem run_open {loop : Loop} {line : List UInt8} (opened : isOpen (loop.extended line) = true)
    (said : Said) (behind : List Prompted) :
    loop.run said (.line line :: behind) =
      run { loop with pending := loop.extended line } (said ++ Said.onOut loop.prompt) behind := by
  have taken : loop.takeLine line =
      .done ({ loop with pending := loop.extended line }, .nothing, false) := if_pos opened
  rw [run, taken]
  show run _ (said ++ .onOut loop.prompt ++ .nothing) behind = _
  rw [Said.append_nothing]

theorem run_closed {loop : Loop} {line : List UInt8}
    (closed : isOpen (loop.extended line) = false) (said : Said) (behind : List Prompted) :
    loop.run said (.line line :: behind) =
      loop.submit (said ++ .onOut loop.prompt) (loop.extended line) behind := by
  have shut : ¬ isOpen (loop.extended line) = true := Bool.eq_false_iff.mp closed
  have taken : loop.takeLine line =
      { loop with pending := [] }.act (loop.extended line) := if_neg shut
  rw [run, taken]
  rfl

/-- An input whose parts are all open, and that is not open itself, is acted on after its last
line. -/
theorem run_typed {input : List UInt8} (complete : isOpen input = false)
    (incomplete : ∀ size, 0 < size → size < input.length → isOpen (input.take size) = true) :
    ∀ (rest : List (List UInt8)) (loop : Loop) (said : Said) (line : List UInt8)
      (behind : List Prompted), loop.extended line ≠ [] →
      loop.extended line ++ rest.flatMap (fun more => Text.lineFeed :: more) = input →
      loop.run said (.line line :: (rest.map .line ++ behind)) =
        loop.submit (said.prompted loop.prompt rest) input behind := by
  intro rest
  induction rest with
  | nil =>
    intro loop said line behind _ whole
    rw [List.flatMap_nil, List.append_nil] at whole
    rw [List.map_nil, List.nil_append, run_closed (by rw [whole]; exact complete), whole]
    rfl
  | cons next rest ih =>
    intro loop said line behind filled whole
    have opened : isOpen (loop.extended line) = true := by
      have part : input.take (loop.extended line).length = loop.extended line := by
        rw [← whole, List.take_left]
      rw [← part]
      apply incomplete
      · exact List.length_pos_iff.mpr filled
      · rw [← whole, List.length_append, List.flatMap_cons, List.length_append, List.length_cons]
        omega
    let further : Loop := { loop with pending := loop.extended line }
    have longer : further.extended next =
        loop.extended line ++ Text.lineFeed :: next := extended_further filled _
    have prompt : further.prompt = furtherPrompt := prompt_further filled
    rw [List.map_cons, List.cons_append, run_open opened]
    have later := ih further (said ++ .onOut loop.prompt) next behind
    rw [longer, prompt] at later
    apply later
    · exact List.append_ne_nil_of_left_ne_nil filled _
    · rw [← whole, List.flatMap_cons, List.append_assoc, List.cons_append]

theorem run_collection {flow : Flow} (followed : flow.Followed) (isCollection : flow.isCollection)
    {loop : Loop} (fresh : loop.pending = []) {first : List UInt8} {rest : List (List UInt8)}
    (whole : typed first rest = flow.text) (said : Said) (behind : List Prompted) :
    loop.run said (.line first :: (rest.map .line ++ behind)) =
      loop.submit (said.prompted mainPrompt rest) flow.text behind := by
  cases flow with
  | plain text => cases isCollection
  | single content => cases isCollection
  | double pieces => cases isCollection
  | collection bracket items =>
    have extended : loop.extended first = first := by simp [extended, fresh]
    have prompt : loop.prompt = mainPrompt := by simp [prompt, fresh]
    have filled : first ≠ [] := by
      intro nothing
      have starts : (Flow.collection bracket items).text.head? = some bracket.opening := by
        simp [Flow.text, Flow.textOf, Flow.tokens, Flow.Token.bytes]
      rw [← whole, typed, nothing, List.nil_append] at starts
      cases rest with
      | nil => cases starts
      | cons line rest => cases bracket <;> cases starts
    rw [← prompt]
    apply run_typed followed.complete
    · intro size some short
      exact followed.incomplete size short (Flow.unclosed_within_pos bracket items some short)
    · rw [extended]
      exact filled
    · rw [extended]
      exact whole

end Loop

/-- The scanner follows flow values as far as their double-quoted scalars allow it: for all values
over a class of scalars, exactly when all scalars of the class are neutral.  A scalar without
escaped quotation marks is neutral; one with neither brackets nor apostrophes is neutral exactly
when it escapes an even number of them.  A collection that is followed is acted on when it is
closed. -/
theorem flow_values_followed [Yaml.Library] (allowed : List Flow.Piece → Prop) :
    ((∀ flow : Flow, (∀ pieces, .double pieces ∈ flow.tokens → allowed pieces) → flow.Followed) ↔
      ∀ pieces, allowed pieces → (Flow.Token.double pieces).Neutral) ∧
    (∀ pieces : List Flow.Piece, pieces.countP Flow.Piece.isEscapedQuote = 0 →
      (Flow.Token.double pieces).Neutral) ∧
    (∀ pieces : List Flow.Piece, (pieces.flatMap Flow.Piece.bytes).all Flow.isBare = true →
      ((Flow.Token.double pieces).Neutral ↔
        Even (pieces.countP Flow.Piece.isEscapedQuote))) ∧
    ∀ flow : Flow, flow.Followed → flow.isCollection → ∀ loop : Loop, loop.pending = [] →
      ∀ (first : List UInt8) (rest : List (List UInt8)), typed first rest = flow.text →
        ∀ (said : Said) (behind : List Prompted),
          loop.run said (.line first :: (rest.map .line ++ behind)) =
            loop.submit (said.prompted mainPrompt rest) flow.text behind := by
  refine ⟨Flow.followed_iff_neutral allowed, ?_, ?_, ?_⟩
  · intro pieces none
    exact Flow.neutral_of_no_quote none
  · intro pieces bare
    exact Flow.neutral_bare_iff bare
  · intro flow followed isCollection loop fresh first rest whole said behind
    exact Loop.run_collection followed isCollection fresh whole said behind

def Flow.onTwoLines : Flow :=
  .collection .curly
    (.more ⟨[], rfl⟩
      (.pair (.plain ⟨Text.toBytes "get", by decide +kernel⟩) ⟨[], rfl⟩ ⟨[32], rfl⟩
        (.single (Text.toBytes "it's \x7d")))
      ⟨[], rfl⟩
      (.last ⟨[10, 32], rfl⟩
        (.pair (.plain ⟨Text.toBytes "args", by decide +kernel⟩) ⟨[], rfl⟩ ⟨[32], rfl⟩
          (.collection .square
            (.last ⟨[], rfl⟩ (.value (.double [.byte 91 (by decide), .escape 92])) ⟨[], rfl⟩)))
        ⟨[], rfl⟩))

theorem flow_values_followed_onTwoLines :
    typed (Text.toBytes "\x7bget: 'it''s \x7d',") [Text.toBytes " args: [\"[\\\\\"]\x7d"] =
        Flow.onTwoLines.text ∧
      Flow.onTwoLines.Followed ∧
      ∀ (loop : Loop) (said : Said) (behind : List Prompted), loop.pending = [] →
        loop.run said (.line (Text.toBytes "\x7bget: 'it''s \x7d',") ::
            .line (Text.toBytes " args: [\"[\\\\\"]\x7d") :: behind) =
          loop.submit (said ++ .onOut mainPrompt ++ .onOut furtherPrompt) Flow.onTwoLines.text
            behind := by
  have whole : typed (Text.toBytes "\x7bget: 'it''s \x7d',")
      [Text.toBytes " args: [\"[\\\\\"]\x7d"] = Flow.onTwoLines.text := by decide +kernel
  obtain ⟨followedIff, neutral, -, submitted⟩ :=
    flow_values_followed fun pieces => pieces.countP Flow.Piece.isEscapedQuote = 0
  have followed : Flow.onTwoLines.Followed := by
    apply followedIff.mpr neutral
    intro pieces isToken
    have same : pieces = [.byte 91 (by decide), .escape 92] := by
      simpa [Flow.onTwoLines, Flow.tokens, Items.tokens, Item.tokens] using isToken
    rw [same]
    rfl
  refine ⟨whole, followed, fun loop said behind fresh => ?_⟩
  exact submitted _ followed rfl loop fresh _ _ whole said behind

def Flow.reading (pieces : List Flow.Piece) : Flow :=
  .collection .curly
    (.last ⟨[], rfl⟩
      (.pair (.plain ⟨Text.toBytes "get", by decide +kernel⟩) ⟨[], rfl⟩ ⟨[32], rfl⟩
        (.double pieces))
      ⟨[], rfl⟩)

/-- An escaped quotation mark keeps a complete value open, and lets an input that still lacks the
end of a scalar and a bracket pass for complete. -/
theorem escaped_quotes_mislead :
    (Flow.reading [.escape 34]).text = Text.toBytes "\x7bget: \"\\\"\"\x7d" ∧
      isOpen (Flow.reading [.escape 34]).text = true ∧
      (Flow.reading [.escape 34, .byte 125 (by decide)]).text.take 10 =
        Text.toBytes "\x7bget: \"\\\"\x7d" ∧
      Flow.unclosed (Flow.within (Flow.reading [.escape 34, .byte 125 (by decide)]).tokens 10) = 1 ∧
      isOpen ((Flow.reading [.escape 34, .byte 125 (by decide)]).text.take 10) = false := by
  decide +kernel

end Sapling.Repl
