import Sapling.Proofs.Tokens
import Sapling.Proofs.Trees
import Sapling.Proofs.NumberText

/-!
# Layouts at different depths

The depth at which a tree is laid out decides where its lines end and how far they are indented, and
nothing else.  `oneLine` is the text of a tree that is never broken.  At every depth the layout has
the tokens of that text, apart from ends of lines (`ink_expr`), and hence its characters apart from
blanks and ends of lines.

Behind every end of a line stands a margin.  This is a property of texts that joining keeps
(`Hanging.append`), so it is enough to look at the pieces of a layout (`hanging_expr`).
-/

set_option autoImplicit false

namespace Sapling.Layout

mutual

def oneLine : Expr → String
  | .hole => "<missing>"
  | .literal _ value => Number.text value
  | .read _ name => name
  | .define _ name value => "let " ++ name ++ " = " ++ oneLine value
  | .binary _ symbol left right =>
    parenthesized (needsParens symbol false left) (oneLine left) ++ " " ++ symbol ++ " "
      ++ parenthesized (needsParens symbol true right) (oneLine right)
  | .guarded _ condition consequent =>
    "if " ++ oneLine condition ++ " \x7b " ++ oneLine consequent ++ " \x7d"
  | .function _ params body =>
    "fn(" ++ Text.join ", " params ++ ") \x7b " ++ Text.join " " (oneLines body) ++ " \x7d"
  | .call _ callee args =>
    parenthesized (!isPlainCallee callee) (oneLine callee)
      ++ "(" ++ Text.join ", " (oneLines args) ++ ")"

def oneLines : List Expr → List String
  | [] => []
  | first :: rest => oneLine first :: oneLines rest

end

theorem oneLines_eq_map (exprs : List Expr) : oneLines exprs = exprs.map oneLine := by
  induction exprs with
  | nil => rfl
  | cons first rest ih => rw [oneLines, ih, List.map_cons]

/-! ## Tokens without ends of lines -/

/-- The tokens without the ends of lines. -/
def ink (tokens : List Token) : List Token := tokens.filter (· ≠ .mark '\n')

def squeezed (text : String) : List Char := text.toList.filter fun c => c ≠ ' ' ∧ c ≠ '\n'

def Token.chars : Token → List Char
  | .word text => text.toList
  | .mark c => [c]

theorem ink_append (front back : List Token) : ink (front ++ back) = ink front ++ ink back :=
  List.filter_append front back

theorem ink_cons (token : Token) (rest : List Token) :
    ink (token :: rest) = ink [token] ++ ink rest :=
  ink_append [token] rest

theorem ink_intercalate (separator : List Token) (parts : List (List Token)) :
    ink (separator.intercalate parts) = (ink separator).intercalate (parts.map ink) := by
  induction parts with
  | nil => rfl
  | cons first rest ih =>
    cases rest with
    | nil => simp
    | cons next more =>
      rw [List.intercalate_cons_cons, ink_append, ink_append, ih]
      simp [List.intercalate_cons_cons]

theorem chars_ink_scan (text : List Char) : ∀ read : List Char,
    (ink (scan read text)).flatMap Token.chars
      = read.reverse ++ text.filter fun c => c ≠ ' ' ∧ c ≠ '\n' := by
  have chars_word (read : List Char) : (ink (wordOf read)).flatMap Token.chars = read.reverse := by
    unfold wordOf
    by_cases empty : read = []
    · simp [empty, ink]
    · simp [empty, ink, Token.chars]
  induction text with
  | nil =>
    intro read
    rw [scan, chars_word]
    simp
  | cons c rest ih =>
    intro read
    rw [scan]
    by_cases delimiter : isDelimiter c = true
    · rw [if_pos delimiter, ink_append, ink_append, List.flatMap_append, List.flatMap_append,
        chars_word, ih]
      by_cases blank : c = ' '
      · simp [blank, markOf, ink]
      · by_cases newline : c = '\n'
        · simp [newline, markOf, ink]
        · simp [blank, newline, markOf, ink, Token.chars]
    · have kept : c ≠ ' ' ∧ c ≠ '\n' := by
        constructor
        · rintro rfl
          exact delimiter rfl
        · rintro rfl
          exact delimiter rfl
      rw [if_neg delimiter, ih]
      simp [kept]

theorem squeezed_eq (text : String) : squeezed text = (ink (tokens text)).flatMap Token.chars := by
  rw [tokens, chars_ink_scan]
  rfl

/-! ## The tokens of the line -/

theorem ink_oneLine_define (span : Span) (name : String) (value : Expr) :
    ink (tokens (oneLine (.define span name value)))
      = .word "let" :: (ink (tokens name) ++ .word "=" :: ink (tokens (oneLine value))) := by
  rw [oneLine, String.append_assoc, String.append_assoc, tokens_append_of_ends (by decide),
    tokens_between (by decide) (by decide), ink_append, ink_append, ink_append]
  rfl

theorem ink_parenthesized (yes : Bool) (text : String) :
    ink (tokens (parenthesized yes text))
      = if yes then .mark '(' :: (ink (tokens text) ++ [.mark ')']) else ink (tokens text) := by
  rw [tokens_parenthesized]
  split
  · rw [ink_cons, ink_append]
    rfl
  · rfl

theorem ink_oneLine_binary (span : Span) (symbol : String) (left right : Expr) :
    ink (tokens (oneLine (.binary span symbol left right)))
      = ink (tokens (parenthesized (needsParens symbol false left) (oneLine left)))
        ++ (ink (tokens symbol)
          ++ ink (tokens (parenthesized (needsParens symbol true right) (oneLine right)))) := by
  rw [oneLine, String.append_assoc, String.append_assoc, String.append_assoc,
    tokens_between (by decide) (by decide), tokens_between (by decide) (by decide), ink_append,
    ink_append, ink_append, ink_append]
  rfl

theorem ink_oneLine_guarded (span : Span) (condition consequent : Expr) :
    ink (tokens (oneLine (.guarded span condition consequent)))
      = .word "if" :: (ink (tokens (oneLine condition))
        ++ .mark '\x7b' :: (ink (tokens (oneLine consequent)) ++ [.mark '\x7d'])) := by
  rw [oneLine, String.append_assoc, String.append_assoc, String.append_assoc,
    tokens_append_of_ends (by decide), tokens_between (by decide) (by decide),
    tokens_append_of_starts (by decide), ink_append, ink_append, ink_append, ink_append]
  rfl

theorem nil_intercalate (parts : List (List Token)) : [].intercalate parts = parts.flatten := by
  induction parts with
  | nil => rfl
  | cons first rest ih => cases rest <;> simp_all [List.intercalate_cons_cons]

theorem ink_oneLine_function (span : Span) (params : List String) (body : List Expr) :
    ink (tokens (oneLine (.function span params body)))
      = .word "fn" :: .mark '(' :: ([.mark ','].intercalate ((params.map tokens).map ink)
        ++ .mark ')' :: .mark '\x7b' ::
          ((body.map fun line => ink (tokens (oneLine line))).flatten ++ [.mark '\x7d'])) := by
  have lines : ((oneLines body).map tokens).map ink
      = body.map fun line => ink (tokens (oneLine line)) := by
    rw [oneLines_eq_map, List.map_map, List.map_map]
    rfl
  rw [oneLine, String.append_assoc, String.append_assoc, String.append_assoc,
    tokens_append_of_ends (by decide), tokens_between (by decide) (by decide),
    tokens_append_of_starts (by decide), tokens_join (by decide) (by decide),
    tokens_join (by decide) (by decide), ink_append, ink_append, ink_append, ink_append,
    ink_intercalate, ink_intercalate, lines, ← nil_intercalate]
  rfl

theorem ink_oneLine_call (span : Span) (callee : Expr) (args : List Expr) :
    ink (tokens (oneLine (.call span callee args)))
      = ink (tokens (parenthesized (!isPlainCallee callee) (oneLine callee)))
        ++ .mark '(' :: ([.mark ','].intercalate (args.map fun arg => ink (tokens (oneLine arg)))
          ++ [.mark ')']) := by
  rw [oneLine, String.append_assoc, String.append_assoc, tokens_between (by decide) (by decide),
    tokens_append_of_starts (by decide), tokens_join (by decide) (by decide), ink_append,
    ink_append, ink_append, ink_intercalate, oneLines_eq_map, List.map_map, List.map_map]
  rfl

/-! ## The tokens of a layout are those of the line -/

theorem Gap.ink_eq {gap : List Token} (allowed : Gap gap) : ink gap = [] := by
  rcases allowed with rfl | rfl <;> rfl

theorem ink_expr (tree : Expr) :
    ∀ depth, ink (tokens (expr tree depth)) = ink (tokens (oneLine tree)) := by
  induction tree using Expr.children_induction with
  | node tree ih =>
    intro depth
    cases tree with
    | hole => rw [expr, oneLine]
    | literal span value => rw [expr, oneLine]
    | read span name => rw [expr, oneLine]
    | define span name value =>
      rw [tokens_define, ink_oneLine_define, ← ih value (by simp [Expr.children]) depth, ink_cons,
        ink_append, ink_cons (.word "=")]
      rfl
    | binary span symbol left right =>
      rw [tokens_binary, ink_oneLine_binary, ink_append, ink_append, ink_parenthesized,
        ink_parenthesized, ink_parenthesized, ink_parenthesized,
        ih left (by simp [Expr.children]), ih right (by simp [Expr.children])]
    | guarded span condition consequent =>
      obtain ⟨gap, inner, allowed, spelled⟩ := tokens_guarded span condition consequent depth
      rw [spelled, ink_oneLine_guarded, ink_cons, ink_append, ink_cons (.mark '\x7b'), ink_append,
        ink_append, ink_append, allowed.ink_eq, ih condition (by simp [Expr.children]),
        ih consequent (by simp [Expr.children])]
      rfl
    | function span params body =>
      have lines : (body.map fun line => tokens (expr line (depth + 1))).map ink
          = body.map fun line => ink (tokens (oneLine line)) := by
        rw [List.map_map]
        exact List.map_congr_left fun line member => ih line member (depth + 1)
      rw [tokens_function, ink_oneLine_function, ink_cons, ink_cons (.mark '('), ink_append,
        ink_cons (.mark ')'), ink_cons (.mark '\x7b'), ink_intercalate, ← nil_intercalate, ← lines]
      cases body with
      | nil => rfl
      | cons first rest =>
        rw [List.isEmpty_cons, if_neg Bool.false_ne_true, ink_cons (.mark '\n'), ink_append,
          ink_intercalate]
        rfl
    | call span callee args =>
      have parts : (args.map fun arg => ink (tokens (expr arg (depth + 1))))
          = args.map fun arg => ink (tokens (oneLine arg)) :=
        List.map_congr_left fun arg member =>
          ih arg (by simp [Expr.children, member]) (depth + 1)
      obtain ⟨gap, allowed, -, spelled⟩ := tokens_call span callee args depth
      rw [spelled, ink_oneLine_call, ink_append, ink_cons, ink_append, ink_append, ink_append,
        ink_intercalate, ink_cons (.mark ','), allowed.ink_eq, List.map_map, ink_parenthesized,
        ink_parenthesized, ih callee (by simp [Expr.children]), ← parts]
      rfl

theorem squeezed_expr (tree : Expr) (depth : Nat) :
    squeezed (expr tree depth) = squeezed (oneLine tree) := by
  rw [squeezed_eq, squeezed_eq, ink_expr]

/-! ## Margins -/

/-- Behind every end of a line stand at least so many blanks. -/
def Hanging (blanks : Nat) : List Char → Prop
  | [] => True
  | c :: rest => (c = '\n' → List.replicate blanks ' ' <+: rest) ∧ Hanging blanks rest

theorem Hanging.append {blanks : Nat} {front back : List Char} (first : Hanging blanks front)
    (second : Hanging blanks back) : Hanging blanks (front ++ back) := by
  induction front with
  | nil => exact second
  | cons c rest ih =>
    obtain ⟨here, later⟩ := first
    exact ⟨fun newline => List.prefix_append_of_prefix (here newline), ih later⟩

theorem Hanging.mono {few many : Nat} (le : few ≤ many) {text : List Char}
    (hanging : Hanging many text) : Hanging few text := by
  induction text with
  | nil => trivial
  | cons c rest ih =>
    obtain ⟨here, later⟩ := hanging
    refine ⟨fun newline => ?_, ih later⟩
    apply List.IsPrefix.trans _ (here newline)
    rw [List.prefix_replicate_iff]
    simp [le]

theorem hanging_of_notMem {blanks : Nat} {text : List Char} (unbroken : '\n' ∉ text) :
    Hanging blanks text := by
  induction text with
  | nil => trivial
  | cons c rest ih =>
    rw [List.mem_cons, not_or] at unbroken
    exact ⟨fun newline => absurd newline.symm unbroken.1, ih unbroken.2⟩

theorem splitOn_cons (c : Char) (rest : List Char) :
    (c :: rest).splitOn '\n' = if c = '\n' then [] :: rest.splitOn '\n'
      else (rest.splitOn '\n').modifyHead (List.cons c) := by
  rw [List.splitOn_eq_splitOnP, List.splitOnP_cons_eq_if_modifyHead, List.splitOn_eq_splitOnP]
  simp

theorem replicate_prefix_head {blanks : Nat} {text line : List Char} {others : List (List Char)}
    (starts : List.replicate blanks ' ' <+: text) (split : text.splitOn '\n' = line :: others) :
    List.replicate blanks ' ' <+: line := by
  induction blanks generalizing text line others with
  | zero => exact List.nil_prefix
  | succ blanks ih =>
    obtain ⟨rest, rfl⟩ := starts
    rw [List.replicate_succ, List.cons_append, splitOn_cons, if_neg (by decide)] at split
    cases inner : (List.replicate blanks ' ' ++ rest).splitOn '\n' with
    | nil => simp [inner] at split
    | cons first more =>
      rw [inner, List.modifyHead_cons, List.cons.injEq] at split
      rw [← split.1, List.replicate_succ, List.cons_prefix_cons]
      exact ⟨rfl, ih (List.prefix_append _ _) inner⟩

theorem Hanging.lines {blanks : Nat} {text : List Char} (hanging : Hanging blanks text) :
    ∀ line ∈ (text.splitOn '\n').tail, List.replicate blanks ' ' <+: line := by
  induction text with
  | nil => simp
  | cons c rest ih =>
    obtain ⟨here, later⟩ := hanging
    cases split : rest.splitOn '\n' with
    | nil => exact absurd split (List.splitOn_ne_nil _ _)
    | cons first others =>
      rw [split, List.tail_cons] at ih
      rw [splitOn_cons, split]
      by_cases newline : c = '\n'
      · rw [if_pos newline, List.tail_cons, List.forall_mem_cons]
        exact ⟨replicate_prefix_head (here newline) split, ih later⟩
      · rw [if_neg newline, List.modifyHead_cons, List.tail_cons]
        exact ih later

/-! ## Texts without ends of lines -/

def texts : Expr → List String
  | .hole | .literal .. | .guarded .. | .call .. => []
  | .read _ name | .define _ name _ => [name]
  | .binary _ symbol _ _ => [symbol]
  | .function _ params _ => params

/-- None of the node's texts ends a line. -/
def Unbroken (node : Expr) : Prop := ∀ text ∈ texts node, '\n' ∉ text.toList

theorem newline_notMem_number (value : Float) : '\n' ∉ (Number.text value).toList := by
  cases finite : Number.magnitude? value with
  | some m =>
    intro member
    rcases Number.text_chars finite '\n' member with digit | point | minus
    · exact absurd digit (by decide)
    · exact absurd point (by decide)
    · exact absurd minus (by decide)
  | none =>
    simp only [Number.text, finite]
    split
    · decide
    · split <;> decide

theorem newline_notMem_join {separator : String} (plain : '\n' ∉ separator.toList)
    {texts : List String} (each : ∀ text ∈ texts, '\n' ∉ text.toList) :
    '\n' ∉ (Text.join separator texts).toList := by
  unfold Text.join
  induction texts with
  | nil => exact List.not_mem_nil
  | cons text rest ih =>
    obtain ⟨here, others⟩ := List.forall_mem_cons.mp each
    cases rest with
    | nil => rwa [String.intercalate_singleton]
    | cons next more =>
      rw [String.intercalate_cons_cons, String.toList_append, String.toList_append,
        List.mem_append, List.mem_append, not_or, not_or]
      exact ⟨⟨here, plain⟩, ih others⟩

theorem newline_notMem_parenthesized (yes : Bool) {text : String} (plain : '\n' ∉ text.toList) :
    '\n' ∉ (parenthesized yes text).toList := by
  unfold parenthesized
  split
  · simp [plain]
  · exact plain

theorem newline_notMem_oneLine {tree : Expr} (unbroken : tree.Everywhere Unbroken) :
    '\n' ∉ (oneLine tree).toList := by
  induction tree using Expr.children_induction with
  | node tree ih =>
    obtain ⟨here, below⟩ := Expr.everywhere_iff.mp unbroken
    replace ih := fun child member => ih child member (below child member)
    have lines {exprs : List Expr} (each : ∀ expr ∈ exprs, '\n' ∉ (oneLine expr).toList) :
        ∀ text ∈ oneLines exprs, '\n' ∉ text.toList := by
      rw [oneLines_eq_map]
      exact List.forall_mem_map.mpr each
    cases tree with
    | hole => decide
    | literal span value => exact newline_notMem_number value
    | read span name => exact here name (by simp [texts])
    | define span name value =>
      rw [oneLine]
      simp [here name (by simp [texts]), ih value (by simp [Expr.children])]
    | binary span symbol left right =>
      have first := newline_notMem_parenthesized (needsParens symbol false left)
        (ih left (by simp [Expr.children]))
      have second := newline_notMem_parenthesized (needsParens symbol true right)
        (ih right (by simp [Expr.children]))
      rw [oneLine]
      simp [here symbol (by simp [texts]), first, second]
    | guarded span condition consequent =>
      rw [oneLine]
      simp [ih condition (by simp [Expr.children]), ih consequent (by simp [Expr.children])]
    | function span params body =>
      have head : '\n' ∉ (Text.join ", " params).toList := newline_notMem_join (by decide) here
      have rest : '\n' ∉ (Text.join " " (oneLines body)).toList :=
        newline_notMem_join (by decide) (lines ih)
      rw [oneLine]
      simp [head, rest]
    | call span callee args =>
      have head := newline_notMem_parenthesized (!isPlainCallee callee)
        (ih callee (by simp [Expr.children]))
      have rest : '\n' ∉ (Text.join ", " (oneLines args)).toList :=
        newline_notMem_join (by decide)
          (lines fun arg member => ih arg (by simp [Expr.children, member]))
      rw [oneLine]
      simp [head, rest]

/-! ## The margins of a layout -/

theorem hanging_append {blanks : Nat} {front back : String} (first : Hanging blanks front.toList)
    (second : Hanging blanks back.toList) : Hanging blanks (front ++ back).toList := by
  rw [String.toList_append]
  exact first.append second

theorem hanging_parenthesized {blanks : Nat} (yes : Bool) {text : String}
    (hanging : Hanging blanks text.toList) : Hanging blanks (parenthesized yes text).toList := by
  unfold parenthesized
  split
  · exact hanging_append (hanging_append (hanging_of_notMem (by decide)) hanging)
      (hanging_of_notMem (by decide))
  · exact hanging

theorem hanging_join {blanks : Nat} {mark : String} (plain : '\n' ∉ mark.toList)
    {lines : List String} (some : lines ≠ [])
    (each : ∀ line ∈ lines,
      List.replicate blanks ' ' <+: line.toList ∧ Hanging blanks line.toList) :
    Hanging blanks ('\n' :: (Text.join (mark ++ "\n") lines).toList) := by
  unfold Text.join
  induction lines with
  | nil => exact absurd rfl some
  | cons line rest ih =>
    obtain ⟨⟨starts, hanging⟩, others⟩ := List.forall_mem_cons.mp each
    have first : Hanging blanks ('\n' :: line.toList) := ⟨fun _ => starts, hanging⟩
    cases rest with
    | nil => rwa [String.intercalate_singleton]
    | cons next more =>
      have later := ih (List.cons_ne_nil next more) others
      have joined := (first.append (hanging_of_notMem plain)).append later
      rw [String.intercalate_cons_cons, String.toList_append, String.toList_append,
        String.toList_append]
      simpa using joined

theorem replicate_prefix_margin (depth : Nat) (text : String) :
    List.replicate (2 * depth) ' ' <+: (margin (depth + 1) ++ text).toList := by
  rw [margin, String.toList_append, String.toList_ofList]
  apply List.prefix_append_of_prefix
  rw [List.prefix_replicate_iff]
  simp

/-- Lines one level inside, between a line that opens them and one that closes them. -/
theorem hanging_between (depth : Nat) (mark opening closing : String) (plain : '\n' ∉ mark.toList)
    (opens : '\n' ∉ opening.toList) (closes : '\n' ∉ closing.toList) {lines : List String}
    (some : lines ≠ []) (each : ∀ line ∈ lines, Hanging (2 * (depth + 1)) line.toList) :
    Hanging (2 * depth) (opening ++ "\n"
      ++ Text.join (mark ++ "\n") (lines.map (margin (depth + 1) ++ ·)) ++ "\n" ++ margin depth
      ++ closing).toList := by
  have indented : ∀ line ∈ lines.map (margin (depth + 1) ++ ·),
      List.replicate (2 * depth) ' ' <+: line.toList ∧ Hanging (2 * depth) line.toList := by
    refine List.forall_mem_map.mpr fun line member => ⟨replicate_prefix_margin depth line, ?_⟩
    apply hanging_append
    · exact hanging_of_notMem (by simp [margin])
    · exact (each line member).mono (by omega)
  have inner := hanging_join plain (by simpa using some) indented
  have last : Hanging (2 * depth) ('\n' :: (margin depth).toList) := by
    refine ⟨fun _ => ?_, hanging_of_notMem (by simp [margin])⟩
    simp [margin]
  have whole := (((hanging_of_notMem opens).append inner).append last).append
    (hanging_of_notMem closes)
  simpa using whole

theorem hanging_block (depth : Nat) {lines : List String} (some : lines ≠ [])
    (each : ∀ line ∈ lines, Hanging (2 * (depth + 1)) line.toList) :
    Hanging (2 * depth) (block depth lines).toList :=
  hanging_between depth "" "\x7b" "\x7d" (by decide) (by decide) (by decide) some each

theorem newline_notMem_of_fits {text : String} (inline : fits text = true) :
    '\n' ∉ text.toList := by
  intro member
  have all := (Bool.and_eq_true_iff.mp inline).2
  simpa using List.all_eq_true.mp all '\n' member

theorem hanging_expr {tree : Expr} (unbroken : tree.Everywhere Unbroken) :
    ∀ depth, Hanging (2 * depth) (expr tree depth).toList := by
  induction tree using Expr.children_induction with
  | node tree ih =>
    intro depth
    obtain ⟨here, below⟩ := Expr.everywhere_iff.mp unbroken
    replace ih := fun child member => ih child member (below child member)
    cases tree with
    | hole =>
      rw [expr]
      exact hanging_of_notMem (by decide)
    | literal span value =>
      rw [expr]
      exact hanging_of_notMem (newline_notMem_number value)
    | read span name =>
      rw [expr]
      exact hanging_of_notMem (here name (by simp [texts]))
    | define span name value =>
      have head : '\n' ∉ ("let " ++ name ++ " = ").toList := by simp [here name (by simp [texts])]
      rw [expr]
      exact hanging_append (hanging_of_notMem head) (ih value (by simp [Expr.children]) depth)
    | binary span symbol left right =>
      rw [expr]
      apply hanging_append
      · apply hanging_append
        · apply hanging_append
          · apply hanging_append
            · exact hanging_parenthesized _ (ih left (by simp [Expr.children]) depth)
            · exact hanging_of_notMem (by decide)
          · exact hanging_of_notMem (here symbol (by simp [texts]))
        · exact hanging_of_notMem (by decide)
      · exact hanging_parenthesized _ (ih right (by simp [Expr.children]) depth)
    | guarded span condition consequent =>
      rw [expr]
      split
      · rename_i inline
        exact hanging_of_notMem (newline_notMem_of_fits inline)
      · have head := ih condition (by simp [Expr.children]) depth
        have body := ih consequent (by simp [Expr.children]) (depth + 1)
        apply hanging_append
        · exact hanging_append (hanging_append (hanging_of_notMem (by decide)) head)
            (hanging_of_notMem (by decide))
        · exact hanging_block depth (List.cons_ne_nil _ _) (List.forall_mem_singleton.mpr body)
    | function span params body =>
      have head : '\n' ∉ ("fn(" ++ Text.join ", " params ++ ") ").toList := by
        have names : '\n' ∉ (Text.join ", " params).toList := newline_notMem_join (by decide) here
        simp [names]
      rw [expr]
      split
      · exact hanging_append (hanging_of_notMem head) (hanging_of_notMem (by decide))
      · rename_i some
        apply hanging_append (hanging_of_notMem head)
        rw [exprs_eq_map]
        apply hanging_block
        · simpa using some
        · exact List.forall_mem_map.mpr fun line member => ih line member (depth + 1)
    | call span callee args =>
      have head := hanging_parenthesized (!isPlainCallee callee)
        (ih callee (by simp [Expr.children]) depth)
      rw [expr]
      split
      · rename_i inline
        apply hanging_append head
        rcases Bool.or_eq_true_iff.mp inline with none | fitting
        · rw [List.isEmpty_iff.mp none, exprs]
          exact hanging_of_notMem (by decide)
        · exact hanging_of_notMem (newline_notMem_of_fits fitting)
      · rename_i wide
        have shape (lines : String) :
            parenthesized (!isPlainCallee callee) (expr callee depth) ++ "(\n" ++ lines ++ "\n"
                ++ margin depth ++ ")"
              = parenthesized (!isPlainCallee callee) (expr callee depth)
                ++ ("(" ++ "\n" ++ lines ++ "\n" ++ margin depth ++ ")") := by
          simp only [String.append_assoc]
          rfl
        rw [shape]
        apply hanging_append head
        refine hanging_between depth "," "(" ")" (by decide) (by decide) (by decide) ?_ ?_
        · rw [exprs_eq_map]
          simp_all
        · rw [exprs_eq_map]
          exact List.forall_mem_map.mpr fun arg member =>
            ih arg (by simp [Expr.children, member]) (depth + 1)

/-- The depth of a layout changes blanks and ends of lines only: at all depths a tree, whatever it
holds, has the characters and the tokens of its text on one line.  And unless a name or an operator
ends a line of its own, every line but the first is indented as the depth asks. -/
theorem depth_changes_blanks_only (tree : Expr) :
    (∀ depth other, squeezed (expr tree depth) = squeezed (expr tree other)) ∧
      (∀ depth, squeezed (expr tree depth) = squeezed (oneLine tree)) ∧
      (∀ depth, ink (tokens (expr tree depth)) = ink (tokens (oneLine tree))) ∧
      (tree.Everywhere Unbroken →
        '\n' ∉ (oneLine tree).toList ∧
          ∀ depth, ∀ line ∈ ((expr tree depth).toList.splitOn '\n').tail,
            List.replicate (2 * depth) ' ' <+: line) := by
  refine ⟨fun depth other => ?_, squeezed_expr tree, ink_expr tree, fun unbroken => ?_⟩
  · rw [squeezed_expr, squeezed_expr]
  · exact ⟨newline_notMem_oneLine unbroken, fun depth => (hanging_expr unbroken depth).lines⟩

def staggered : Expr :=
  .guarded Span.zero (.read Span.zero "c")
    (.call Span.zero (.read Span.zero "f") [.function Span.zero ["x"] [.read Span.zero "x"]])

theorem depth_changes_blanks_only_staggered :
    staggered.Everywhere Unbroken ∧
      (expr staggered 1).toList.count '\n' = 6 ∧
      '\n' ∉ (oneLine staggered).toList ∧
      ∀ line ∈ ((expr staggered 1).toList.splitOn '\n').tail, [' ', ' '] <+: line := by
  have unbroken : staggered.Everywhere Unbroken := by
    simp [staggered, Expr.Everywhere, Expr.everywhereAll, Unbroken, texts]
  obtain ⟨whole, lines⟩ := (depth_changes_blanks_only staggered).2.2.2 unbroken
  exact ⟨unbroken, by decide, whole, lines 1⟩

end Sapling.Layout
