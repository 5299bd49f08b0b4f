import Mathlib.Data.List.Basic
import Sapling.Layout

/-!
# The tokens of a layout

A text falls into words and marks.  Blanks stand between words and are dropped; the ends of lines
are kept, since they part the expressions of a body.  Every text that a layout puts between two
others starts and ends with a character that belongs to no word, so the tokens of a layout are those
of its parts (`tokens_expr`).
-/

set_option autoImplicit false

namespace Sapling.Layout

inductive Token
  | word (text : String)
  | mark (c : Char)
  deriving DecidableEq, Repr

def isDelimiter (c : Char) : Bool := c ∈ [' ', '\n', '(', ')', '\x7b', '\x7d', ',']

def wordOf (read : List Char) : List Token :=
  if read.isEmpty then [] else [.word (String.ofList read.reverse)]

def markOf (c : Char) : List Token := if c = ' ' then [] else [.mark c]

def scan : (read : List Char) → List Char → List Token
  | read, [] => wordOf read
  | read, c :: rest =>
    if isDelimiter c then wordOf read ++ markOf c ++ scan [] rest else scan (c :: read) rest

def tokens (text : String) : List Token := scan [] text.toList

/-! ## Texts put together -/

theorem scan_append_delimiter {d : Char} (ends : isDelimiter d = true)
    (read before after : List Char) :
    scan read (before ++ d :: after) = scan read before ++ markOf d ++ scan [] after := by
  induction before generalizing read with
  | nil => simp [scan, ends]
  | cons c rest ih =>
    by_cases delimiter : isDelimiter c
    · simp [scan, delimiter, ih]
    · simp [scan, delimiter, ih]

theorem scan_word {text : List Char} (plain : ∀ c ∈ text, isDelimiter c = false)
    (read : List Char) : scan read text = wordOf (text.reverse ++ read) := by
  induction text generalizing read with
  | nil => rfl
  | cons c rest ih =>
    obtain ⟨here, later⟩ := List.forall_mem_cons.mp plain
    simp [scan, here, ih later]

def Starts (text : String) : Prop := text.toList.head?.any isDelimiter = true

def Ends (text : String) : Prop := text.toList.getLast?.any isDelimiter = true

instance (text : String) : Decidable (Starts text) := inferInstanceAs (Decidable (_ = true))

instance (text : String) : Decidable (Ends text) := inferInstanceAs (Decidable (_ = true))

theorem tokens_append_of_starts {text rest : String} (starts : Starts rest) :
    tokens (text ++ rest) = tokens text ++ tokens rest := by
  unfold tokens Starts at *
  rw [String.toList_append]
  cases same : rest.toList with
  | nil => simp [same] at starts
  | cons d after =>
    rw [same] at starts
    have delimiter : isDelimiter d = true := by simpa using starts
    have alone := scan_append_delimiter delimiter [] [] after
    rw [List.nil_append] at alone
    rw [scan_append_delimiter delimiter, alone]
    simp [scan, wordOf]

theorem tokens_append_of_ends {text rest : String} (ends : Ends text) :
    tokens (text ++ rest) = tokens text ++ tokens rest := by
  unfold tokens Ends at *
  rw [String.toList_append]
  rcases List.eq_nil_or_concat text.toList with empty | ⟨before, d, same⟩
  · simp [empty] at ends
  · rw [List.concat_eq_append] at same
    rw [same] at ends
    have delimiter : isDelimiter d = true := by simpa using ends
    rw [same, List.append_assoc, List.singleton_append, scan_append_delimiter delimiter,
      scan_append_delimiter delimiter]
    simp [scan, wordOf]

theorem Starts.append {text : String} (starts : Starts text) (rest : String) :
    Starts (text ++ rest) := by
  unfold Starts at *
  rw [String.toList_append]
  cases same : text.toList with
  | nil => simp [same] at starts
  | cons c more => simpa [same] using starts

theorem tokens_between {middle : String} (starts : Starts middle) (ends : Ends middle)
    (before after : String) :
    tokens (before ++ (middle ++ after)) = tokens before ++ (tokens middle ++ tokens after) := by
  rw [tokens_append_of_starts (starts.append after), tokens_append_of_ends ends]

theorem tokens_word {text : String} (some : text ≠ "")
    (plain : ∀ c ∈ text.toList, isDelimiter c = false) : tokens text = [.word text] := by
  unfold tokens
  rw [scan_word plain]
  simp [wordOf, some]

theorem tokens_margin (depth : Nat) (text : String) :
    tokens (margin depth ++ text) = tokens text := by
  unfold tokens margin
  rw [String.toList_append, String.toList_ofList]
  generalize 2 * depth = count
  induction count with
  | zero => rfl
  | succ count ih =>
    rw [List.replicate_succ, List.cons_append, scan, if_pos (by decide)]
    exact ih

theorem tokens_join {separator : String} (starts : Starts separator) (ends : Ends separator)
    (texts : List String) :
    tokens (Text.join separator texts) = (tokens separator).intercalate (texts.map tokens) := by
  unfold Text.join
  induction texts with
  | nil => rfl
  | cons text rest ih =>
    cases rest with
    | nil => simp [String.intercalate_singleton, List.intercalate_singleton]
    | cons next more =>
      rw [String.intercalate_cons_cons, String.append_assoc, tokens_between starts ends, ih]
      simp [List.intercalate_cons_cons]

/-! ## The tokens of nodes -/

/-- What may stand inside brackets beside what they hold: nothing, or the end of a line. -/
def Gap (gap : List Token) : Prop := gap = [] ∨ gap = [.mark '\n']

theorem tokens_parenthesized (yes : Bool) (text : String) :
    tokens (parenthesized yes text)
      = if yes then .mark '(' :: (tokens text ++ [.mark ')']) else tokens text := by
  unfold parenthesized
  split
  · rw [String.append_assoc, tokens_append_of_ends (by decide),
      tokens_append_of_starts (by decide)]
    rfl
  · rfl

theorem tokens_block (depth : Nat) (lines : List String) :
    tokens (block depth lines)
      = .mark '\x7b' :: .mark '\n' :: ([.mark '\n'].intercalate (lines.map tokens)
        ++ [.mark '\n', .mark '\x7d']) := by
  have close : tokens ("\n" ++ (margin depth ++ "\x7d")) = [.mark '\n', .mark '\x7d'] := by
    rw [tokens_append_of_ends (by decide), tokens_margin]
    decide
  have starts : Starts ("\n" ++ (margin depth ++ "\x7d")) := Starts.append (by decide) _
  have inner : (lines.map (margin (depth + 1) ++ ·)).map tokens = lines.map tokens := by
    simp [tokens_margin]
  unfold block
  rw [String.append_assoc, String.append_assoc, String.append_assoc,
    tokens_append_of_ends (by decide), tokens_append_of_starts starts,
    tokens_join (by decide) (by decide), inner, close]
  rfl

theorem tokens_define (span : Span) (name : String) (value : Expr) (depth : Nat) :
    tokens (expr (.define span name value) depth)
      = .word "let" :: (tokens name ++ .word "=" :: tokens (expr value depth)) := by
  rw [expr, String.append_assoc, String.append_assoc, tokens_append_of_ends (by decide),
    tokens_between (by decide) (by decide)]
  rfl

theorem tokens_binary (span : Span) (symbol : String) (left right : Expr) (depth : Nat) :
    tokens (expr (.binary span symbol left right) depth)
      = tokens (parenthesized (needsParens symbol false left) (expr left depth))
        ++ (tokens symbol
          ++ tokens (parenthesized (needsParens symbol true right) (expr right depth))) := by
  rw [expr, String.append_assoc, String.append_assoc, String.append_assoc,
    tokens_between (by decide) (by decide), tokens_between (by decide) (by decide)]
  rfl

theorem tokens_guarded (span : Span) (condition consequent : Expr) (depth : Nat) :
    ∃ gap inner, Gap gap ∧ tokens (expr (.guarded span condition consequent) depth)
      = .word "if" :: (tokens (expr condition depth)
        ++ .mark '\x7b' ::
          (gap ++ (tokens (expr consequent inner) ++ (gap ++ [.mark '\x7d'])))) := by
  rw [expr]
  split
  · refine ⟨[], depth, .inl rfl, ?_⟩
    rw [String.append_assoc, String.append_assoc, String.append_assoc, String.append_assoc,
      tokens_append_of_ends (by decide), tokens_between (by decide) (by decide),
      tokens_append_of_ends (by decide), tokens_append_of_starts (by decide)]
    rfl
  · refine ⟨[.mark '\n'], depth + 1, .inr rfl, ?_⟩
    rw [String.append_assoc, String.append_assoc, tokens_append_of_ends (by decide),
      tokens_between (by decide) (by decide), tokens_block, List.map_singleton,
      List.intercalate_singleton]
    rfl

theorem exprs_eq_map (exprs : List Expr) (depth : Nat) :
    Layout.exprs exprs depth = exprs.map (expr · depth) := by
  induction exprs with
  | nil => rfl
  | cons first rest ih => rw [Layout.exprs, ih, List.map_cons]

theorem tokens_function (span : Span) (params : List String) (body : List Expr) (depth : Nat) :
    tokens (expr (.function span params body) depth)
      = .word "fn" :: .mark '(' :: ([.mark ','].intercalate (params.map tokens) ++ .mark ')' ::
        .mark '\x7b' :: (if body.isEmpty then [.mark '\x7d'] else
          .mark '\n' :: ([.mark '\n'].intercalate
              (body.map fun line => tokens (expr line (depth + 1)))
            ++ [.mark '\n', .mark '\x7d']))) := by
  rw [expr]
  split
  · rw [String.append_assoc, String.append_assoc, tokens_append_of_ends (by decide),
      tokens_append_of_starts (by decide), tokens_join (by decide) (by decide)]
    rfl
  · rw [String.append_assoc, String.append_assoc, tokens_append_of_ends (by decide),
      tokens_between (by decide) (by decide), tokens_join (by decide) (by decide), tokens_block,
      exprs_eq_map, List.map_map]
    rfl

theorem tokens_call (span : Span) (callee : Expr) (args : List Expr) (depth : Nat) :
    ∃ gap, Gap gap ∧ (args = [] → gap = []) ∧ tokens (expr (.call span callee args) depth)
      = tokens (parenthesized (!isPlainCallee callee) (expr callee depth))
        ++ .mark '(' :: (gap ++ ((.mark ',' :: gap).intercalate
            (args.map fun arg => tokens (expr arg (depth + 1)))
          ++ (gap ++ [.mark ')']))) := by
  rw [expr]
  split
  · refine ⟨[], .inl rfl, fun _ => rfl, ?_⟩
    rw [String.append_assoc, tokens_between (by decide) (by decide),
      tokens_append_of_starts (by decide), tokens_join (by decide) (by decide), exprs_eq_map,
      List.map_map]
    rfl
  · rename_i wide
    refine ⟨[.mark '\n'], .inr rfl, ?_, ?_⟩
    · rintro rfl
      simp at wide
    · have close : tokens ("\n" ++ (margin depth ++ ")")) = [.mark '\n', .mark ')'] := by
        rw [tokens_append_of_ends (by decide), tokens_margin]
        decide
      have starts : Starts ("\n" ++ (margin depth ++ ")")) := Starts.append (by decide) _
      have inner : ((Layout.exprs args (depth + 1)).map (margin (depth + 1) ++ ·)).map tokens
          = args.map fun arg => tokens (expr arg (depth + 1)) := by
        simp [exprs_eq_map, tokens_margin]
      rw [String.append_assoc, String.append_assoc, String.append_assoc, String.append_assoc,
        tokens_between (by decide) (by decide), tokens_append_of_starts starts,
        tokens_join (by decide) (by decide), inner, close]
      rfl

end Sapling.Layout
