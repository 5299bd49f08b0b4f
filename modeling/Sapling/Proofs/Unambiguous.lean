import Sapling.Proofs.NumberText
import Sapling.Proofs.Tokens
import Sapling.Proofs.Trees

/-!
# Layouts are unambiguous

`parse` reads layouts, token by token, with a stack of what was begun.  An operator first finishes
the operations that bind at least as tightly; a closing bracket, a comma and the end of a line
finish all that is pending.

From the tokens of a tree the parser arrives at a value with some operations and definitions
pending, which together make the tree (`reads`).  How tightly these bind is the level of the tree,
and this is where the parentheses of a layout come in: an operand is parenthesized unless its level
keeps it apart from the operator.  Hence the parser recovers every program from its layout, and two
programs with one layout differ in their places only (`layout_unambiguous`).
-/

set_option autoImplicit false

namespace Sapling.Layout

/-! ## The parser -/

inductive Frame
  | define (name : String)
  | operate (symbol : String) (left : Expr)
  | group
  | condition
  | consequent (condition : Expr)
  | args (callee : Expr) (done : List Expr)
  /-- The lines so far, last first, of a function with these parameters or of a program. -/
  | lines (params : Option (List String)) (done : List Expr)

inductive Mode
  | start
  | value (expr : Expr)
  | name
  | equals (name : String)
  | function
  | params (done : List String)
  | body (params : List String)

structure State where
  mode : Mode
  frames : List Frame

/-- Finishes what is pending around a value. -/
def settle (value : Expr) : List Frame → Expr × List Frame
  | .define name :: rest => settle (.define .zero name value) rest
  | .operate symbol left :: rest => settle (.binary .zero symbol left value) rest
  | frames => (value, frames)

def reduce (level : Nat) (value : Expr) : List Frame → Expr × List Frame
  | .operate symbol left :: rest =>
    if level ≤ precedence symbol then reduce level (.binary .zero symbol left value) rest
    else (value, .operate symbol left :: rest)
  | frames => (value, frames)

def keywords : List String := ["let", "if", "fn"]

def isName (text : String) : Bool :=
  (match text.toList with
    | [] => false
    | c :: rest => (c.isAlpha || c == '_') && rest.all fun c => c.isAlphanum || c == '_')
  && text ∉ keywords

def startWord (text : String) (frames : List Frame) : Option State :=
  if text = "let" then some ⟨.name, frames⟩
  else if text = "if" then some ⟨.start, .condition :: frames⟩
  else if text = "fn" then some ⟨.function, frames⟩
  else if isName text then some ⟨.value (.read .zero text), frames⟩
  else (Number.float? text.toList).map fun value => ⟨.value (.literal .zero value), frames⟩

def startMark (c : Char) (frames : List Frame) : Option State :=
  match c, frames with
  | '\n', frames => some ⟨.start, frames⟩
  | '(', frames => some ⟨.start, .group :: frames⟩
  | ')', .args callee [] :: rest => some ⟨.value (.call .zero callee []), rest⟩
  | '\x7d', .lines (some params) done :: rest =>
    some ⟨.value (.function .zero params done.reverse), rest⟩
  | _, _ => none

def operator (text : String) (value : Expr) (frames : List Frame) : Option State :=
  if (Operator.ofSymbol? text).isSome then
    let (left, rest) := reduce (precedence text) value frames
    some ⟨.start, .operate text left :: rest⟩
  else none

def endMark (c : Char) : Expr × List Frame → Option State
  | (value, .group :: rest) =>
    if c = ')' then some ⟨.value value, rest⟩ else none
  | (value, .condition :: rest) =>
    if c = '\x7b' then some ⟨.start, .consequent value :: rest⟩ else none
  | (value, .consequent condition :: rest) =>
    if c = '\x7d' then some ⟨.value (.guarded .zero condition value), rest⟩
    else if c = '\n' then some ⟨.value value, .consequent condition :: rest⟩
    else none
  | (value, .args callee done :: rest) =>
    if c = ')' then some ⟨.value (.call .zero callee (done.reverse ++ [value])), rest⟩
    else if c = ',' then some ⟨.start, .args callee (value :: done) :: rest⟩
    else if c = '\n' then some ⟨.value value, .args callee done :: rest⟩
    else none
  | (value, .lines params done :: rest) =>
    if c = '\n' then some ⟨.start, .lines params (value :: done) :: rest⟩ else none
  | _ => none

def step (state : State) (token : Token) : Option State :=
  match state.mode, token with
  | .start, .word text => startWord text state.frames
  | .start, .mark c => startMark c state.frames
  | .value value, .word text => operator text value state.frames
  | .value value, .mark c =>
    if c = '(' then some ⟨.start, .args value [] :: state.frames⟩
    else endMark c (settle value state.frames)
  | .name, .word text => some ⟨.equals text, state.frames⟩
  | .equals name, .word text =>
    if text = "=" then some ⟨.start, .define name :: state.frames⟩ else none
  | .function, .mark '(' => some ⟨.params [], state.frames⟩
  | .params done, .word text => some ⟨.params (text :: done), state.frames⟩
  | .params done, .mark ',' => some ⟨.params done, state.frames⟩
  | .params done, .mark ')' => some ⟨.body done.reverse, state.frames⟩
  | .body params, .mark '\x7b' => some ⟨.start, .lines (some params) [] :: state.frames⟩
  | _, _ => none

def run (state : State) (tokens : List Token) : Option State := tokens.foldlM step state

/-- The statements of a program from its layout. -/
def parse (text : String) : Option (List Expr) :=
  match run ⟨.start, [.lines none []]⟩ (tokens text) with
  | some ⟨.start, [.lines none done]⟩ => some done.reverse
  | _ => none

theorem run_cons (state : State) (token : Token) (rest : List Token) :
    run state (token :: rest) = (step state token).bind (run · rest) := by
  rw [run, List.foldlM_cons]
  rfl

theorem run_append {state next : State} {first : List Token} (read : run state first = some next)
    (rest : List Token) : run state (first ++ rest) = run next rest := by
  unfold run at *
  rw [List.foldlM_append, read]
  rfl

/-! ## What is pending -/

/-- The frames around the value make the tree, and bind at least as tightly as the level. -/
inductive Pending (level : Nat) : List Frame → Expr → Expr → Prop
  | nil (value : Expr) : Pending level [] value value
  | operate {symbol : String} {left value tree : Expr} {frames : List Frame}
      (tight : level ≤ precedence symbol)
      (more : Pending level frames (.binary .zero symbol left value) tree) :
      Pending level (.operate symbol left :: frames) value tree
  | define {name : String} {value tree : Expr} {frames : List Frame} (loose : level = 0)
      (more : Pending level frames (.define .zero name value) tree) :
      Pending level (.define name :: frames) value tree

def Frame.isPending : Frame → Bool
  | .define _ | .operate .. => true
  | _ => false

theorem Pending.mono {low high : Nat} (le : low ≤ high) {frames : List Frame} {value tree : Expr}
    (pending : Pending high frames value tree) : Pending low frames value tree := by
  induction pending with
  | nil value => exact .nil value
  | operate tight _ ih => exact .operate (le.trans tight) ih
  | define loose _ ih => exact .define (by omega) ih

theorem Pending.append {level : Nat} {first second : List Frame} {value middle tree : Expr}
    (inner : Pending level first value middle) (outer : Pending level second middle tree) :
    Pending level (first ++ second) value tree := by
  induction inner with
  | nil value => exact outer
  | operate tight _ ih => exact .operate tight (ih outer)
  | define loose _ ih => exact .define loose (ih outer)

theorem precedence_le (symbol : String) : precedence symbol ≤ 2 := by
  unfold precedence
  split <;> decide

theorem Pending.eq_nil {frames : List Frame} {value tree : Expr}
    (pending : Pending 3 frames value tree) : frames = [] ∧ value = tree := by
  cases pending with
  | nil value => exact ⟨rfl, rfl⟩
  | @operate symbol left value tree frames tight more =>
    have := precedence_le symbol
    omega
  | define loose more => cases loose

def Closed (frames : List Frame) : Prop := frames.head?.all (!·.isPending) = true

theorem Closed.settle {frames : List Frame} (closed : Closed frames) (value : Expr) :
    settle value frames = (value, frames) := by
  unfold Layout.settle
  split <;> simp_all [Closed, Frame.isPending]

theorem Pending.settle {level : Nat} {pending frames : List Frame} {value tree : Expr}
    (around : Pending level pending value tree) (closed : Closed frames) :
    settle value (pending ++ frames) = (tree, frames) := by
  induction around with
  | nil value => exact closed.settle value
  | operate _ _ ih => exact ih
  | define _ _ ih => exact ih

/-- The innermost frame is no operation that binds as tightly as the level. -/
def Below (level : Nat) (frames : List Frame) : Prop :=
  ∀ symbol left rest, frames = .operate symbol left :: rest → precedence symbol < level

theorem Below.mono {low high : Nat} (le : low ≤ high) {frames : List Frame}
    (below : Below low frames) : Below high frames :=
  fun symbol left rest same => Nat.lt_of_lt_of_le (below symbol left rest same) le

theorem below_three (frames : List Frame) : Below 3 frames :=
  fun symbol _ _ _ => Nat.lt_succ_of_le (precedence_le symbol)

theorem Below.reduce {level : Nat} {frames : List Frame} (below : Below level frames)
    (value : Expr) : reduce level value frames = (value, frames) := by
  unfold Layout.reduce
  split
  · rename_i symbol left rest
    have := below symbol left rest rfl
    rw [if_neg (by omega)]
  · rfl

theorem Pending.reduce {level bound : Nat} (some : 0 < level) (le : bound ≤ level)
    {pending frames : List Frame} {value tree : Expr} (around : Pending level pending value tree)
    (below : Below bound frames) : reduce bound value (pending ++ frames) = (tree, frames) := by
  induction around with
  | nil value => exact below.reduce value
  | operate tight _ ih =>
    rw [List.cons_append, Layout.reduce, if_pos (le.trans tight)]
    exact ih
  | define loose => omega

/-! ## Words -/

theorem isDelimiter_cases {c : Char} (delimiter : isDelimiter c = true) :
    c.isAlphanum = false ∧ c ≠ '_' ∧ c.isDigit = false ∧ c ≠ '.' ∧ c ≠ '-' := by
  have : c = ' ' ∨ c = '\n' ∨ c = '(' ∨ c = ')' ∨ c = '\x7b' ∨ c = '\x7d' ∨ c = ',' := by
    simpa [isDelimiter] using delimiter
  rcases this with rfl | rfl | rfl | rfl | rfl | rfl | rfl <;> decide

theorem tokens_name {text : String} (named : isName text = true) : tokens text = [.word text] := by
  unfold isName at named
  split at named
  · simp at named
  · rename_i c rest same
    simp only [Bool.and_eq_true, List.all_eq_true] at named
    obtain ⟨⟨first, others⟩, -⟩ := named
    refine tokens_word (by rintro rfl; simp at same) fun d there => ?_
    rw [same] at there
    by_contra delimiter
    have apart := isDelimiter_cases (Bool.eq_true_of_not_eq_false delimiter)
    rcases List.mem_cons.mp there with rfl | later
    · simp_all [Char.isAlphanum]
    · have := others d later
      simp_all

theorem startWord_name {text : String} (named : isName text = true) (frames : List Frame) :
    startWord text frames = some ⟨.value (.read .zero text), frames⟩ := by
  have other : text ≠ "let" ∧ text ≠ "if" ∧ text ≠ "fn" := by
    unfold isName at named
    simpa [keywords] using (Bool.and_eq_true_iff.mp named).2
  simp [startWord, other, named]

theorem tokens_number {value : Float} {m : Magnitude} (finite : Number.magnitude? value = some m) :
    tokens (Number.text value) = [.word (Number.text value)] := by
  have starts := Number.startsNumeric_text finite []
  refine tokens_word ?_ fun c there => ?_
  · intro empty
    rw [empty] at starts
    cases starts
  · by_contra delimiter
    have apart := isDelimiter_cases (Bool.eq_true_of_not_eq_false delimiter)
    have := Number.text_chars finite c there
    simp_all

theorem not_letter_of_isDigit {c : Char} (digit : c.isDigit = true) :
    c.isAlpha = false ∧ c ≠ '_' := by
  refine ⟨?_, by rintro rfl; cases digit⟩
  by_contra letter
  simp only [Char.isDigit, Char.isAlpha, Char.isUpper, Char.isLower, Bool.not_eq_false,
    Bool.or_eq_true, Bool.and_eq_true, decide_eq_true_eq, ge_iff_le, UInt32.le_iff_toNat_le]
    at digit letter
  have nine : '9'.val.toNat = 57 := rfl
  have upper : 'A'.val.toNat = 65 := rfl
  have lower : 'a'.val.toNat = 97 := rfl
  omega

theorem startWord_number {value : Float} {m : Magnitude} (finite : Number.magnitude? value = some m)
    (frames : List Frame) :
    startWord (Number.text value) frames = some ⟨.value (.literal .zero value), frames⟩ := by
  have starts := Number.startsNumeric_text finite []
  rw [List.append_nil] at starts
  have apart : ∀ text : String,
      Number.startsNumeric text.toList = false → Number.text value ≠ text := by
    intro text other same
    rw [same, other] at starts
    cases starts
  have notName : isName (Number.text value) = false := by
    cases same : (Number.text value).toList with
    | nil => simp [isName, same]
    | cons c rest =>
      rw [same] at starts
      have letter : c.isAlpha = false ∧ c ≠ '_' := by
        rcases Number.startsNumeric_cons starts with rfl | digit
        · decide
        · exact not_letter_of_isDigit digit
      simp [isName, same, letter]
  have read := Number.float?_text finite (.inl rfl)
  rw [List.append_nil] at read
  simp [startWord, apart "let" rfl, apart "if" rfl, apart "fn" rfl, notName, read]

/-! ## Reading trees -/

/-- What a layout can say of one node: it is there, its names are names, its operator is known and
its number finite. -/
def Plain : Expr → Prop
  | .hole => False
  | .literal _ value => value.isFinite = true
  | .read _ name | .define _ name _ => isName name = true
  | .binary _ symbol _ _ => ∃ op : Operator, symbol = op.symbol
  | .function _ params _ => ∀ param ∈ params, isName param = true
  | .guarded .. | .call .. => True

def level : Expr → Nat
  | .binary _ symbol _ _ => precedence symbol
  | .define .. => 0
  | _ => 3

def Reads (tree : Expr) : Prop :=
  ∀ depth frames, Below (level tree) frames → ∃ value pending,
    run ⟨.start, frames⟩ (tokens (expr tree depth)) = some ⟨.value value, pending ++ frames⟩ ∧
      Pending (level tree) pending value tree.bare

theorem Closed.below {frames : List Frame} (closed : Closed frames) (level : Nat) :
    Below level frames := by
  rintro symbol left rest rfl
  cases closed

theorem Reads.settled {tree : Expr} (reads : Reads tree) (depth : Nat) (frames : List Frame)
    (closed : Closed frames) :
    ∃ value stack, run ⟨.start, frames⟩ (tokens (expr tree depth)) = some ⟨.value value, stack⟩ ∧
      settle value stack = (tree.bare, frames) := by
  obtain ⟨value, pending, read, around⟩ := reads depth frames (closed.below _)
  exact ⟨value, pending ++ frames, read, around.settle closed⟩

theorem run_mark {value tree : Expr} {stack frames : List Frame}
    (settled : settle value stack = (tree, frames)) {c : Char} (other : c ≠ '(')
    (rest : List Token) :
    run ⟨.value value, stack⟩ (.mark c :: rest) = (endMark c (tree, frames)).bind (run · rest) := by
  rw [run_cons]
  simp [step, other, settled]

theorem run_gap {gap : List Token} (allowed : Gap gap) (frames : List Frame) (rest : List Token) :
    run ⟨.start, frames⟩ (gap ++ rest) = run ⟨.start, frames⟩ rest := by
  rcases allowed with rfl | rfl <;> rfl

theorem run_gap_mark {gap : List Token} (allowed : Gap gap) {value tree : Expr}
    {stack frames : List Frame} (settled : settle value stack = (tree, frames))
    (closed : Closed frames) (passes : endMark '\n' (tree, frames) = some ⟨.value tree, frames⟩)
    {c : Char} (other : c ≠ '(') (rest : List Token) :
    run ⟨.value value, stack⟩ (gap ++ .mark c :: rest)
      = (endMark c (tree, frames)).bind (run · rest) := by
  rcases allowed with rfl | rfl
  · exact run_mark settled other rest
  · rw [List.singleton_append, run_mark settled (by decide), passes]
    exact run_mark (closed.settle tree) other rest

/-! ## Operands -/

theorem Reads.operand {tree : Expr} (reads : Reads tree) (yes : Bool) (depth : Nat)
    (frames : List Frame) (below : Below (if yes then 3 else level tree) frames) :
    ∃ value pending,
      run ⟨.start, frames⟩ (tokens (parenthesized yes (expr tree depth)))
        = some ⟨.value value, pending ++ frames⟩ ∧
      Pending (if yes then 3 else level tree) pending value tree.bare := by
  rw [tokens_parenthesized]
  cases yes with
  | false => exact reads depth frames below
  | true =>
    refine ⟨tree.bare, [], ?_, .nil _⟩
    obtain ⟨value, stack, read, settled⟩ := reads.settled depth (.group :: frames) rfl
    rw [if_pos rfl, run_cons]
    change run ⟨.start, .group :: frames⟩ _ = _
    rw [run_append read, run_mark settled (by decide)]
    rfl

theorem precedence_le_left (symbol : String) (tree : Expr) :
    precedence symbol ≤ if needsParens symbol false tree then 3 else level tree := by
  have := precedence_le symbol
  split
  · omega
  · cases tree <;> simp_all [needsParens, level] <;> omega

theorem precedence_lt_right (symbol : String) (tree : Expr) :
    precedence symbol < if needsParens symbol true tree then 3 else level tree := by
  have := precedence_le symbol
  split
  · omega
  · cases tree <;> simp_all [needsParens, level] <;> omega

theorem precedence_pos (op : Operator) : 0 < precedence op.symbol := by
  cases op <;> decide

theorem tokens_symbol (op : Operator) : tokens op.symbol = [.word op.symbol] := by
  cases op <;> decide

theorem reads_binary {span : Span} {op : Operator} {left right : Expr} (readsLeft : Reads left)
    (readsRight : Reads right) : Reads (.binary span op.symbol left right) := by
  intro depth frames below
  have le := precedence_le_left op.symbol left
  have lt := precedence_lt_right op.symbol right
  obtain ⟨first, before, readFirst, around⟩ := readsLeft.operand _ depth frames (below.mono le)
  -- the operator finishes the left operand, and nothing outside since that binds less tightly
  have joined := around.reduce ((precedence_pos op).trans_le le) le below
  have inside : Below (if needsParens op.symbol true right then 3 else level right)
      (.operate op.symbol left.bare :: frames) := by
    intro symbol other rest same
    cases same
    exact lt
  obtain ⟨second, after, readSecond, outside⟩ := readsRight.operand _ depth _ inside
  refine ⟨second, after ++ [.operate op.symbol left.bare], ?_, ?_⟩
  · rw [tokens_binary, run_append readFirst, tokens_symbol, List.singleton_append, run_cons]
    have known : (Operator.ofSymbol? op.symbol).isSome = true := by
      rw [Operator.ofSymbol?_symbol]
      rfl
    simp only [step, operator, known, if_true, joined]
    rw [Option.bind_some, readSecond, List.append_assoc]
    rfl
  · exact (outside.mono lt.le).append (.operate (Nat.le_refl _) (.nil _))

/-! ## The other nodes -/

theorem magnitude?_of_isFinite {value : Float} (finite : value.isFinite = true) :
    ∃ m, Number.magnitude? value = some m := by
  cases found : Number.magnitude? value with
  | some m => exact ⟨m, rfl⟩
  | none =>
    rcases Number.eq_of_magnitude?_eq_none found with rfl | rfl | rfl <;>
      exact absurd finite (by decide)

theorem reads_literal {span : Span} {value : Float} (finite : value.isFinite = true) :
    Reads (.literal span value) := by
  obtain ⟨m, finite⟩ := magnitude?_of_isFinite finite
  intro depth frames _
  refine ⟨.literal .zero value, [], ?_, .nil _⟩
  rw [expr, tokens_number finite, run_cons]
  simp only [step, startWord_number finite]
  rfl

theorem reads_read {span : Span} {name : String} (named : isName name = true) :
    Reads (.read span name) := by
  intro depth frames _
  refine ⟨.read .zero name, [], ?_, .nil _⟩
  rw [expr, tokens_name named, run_cons]
  simp only [step, startWord_name named]
  rfl

theorem reads_define {span : Span} {name : String} {value : Expr} (named : isName name = true)
    (reads : Reads value) : Reads (.define span name value) := by
  intro depth frames _
  -- a definition starts afresh: what is pending outside of it does not matter
  have inside : Below (level value) (.define name :: frames) := nofun
  obtain ⟨inner, pending, read, around⟩ := reads depth _ inside
  refine ⟨inner, pending ++ [.define name], ?_, ?_⟩
  · rw [tokens_define, tokens_name named, List.append_assoc]
    exact read
  · exact (around.mono (Nat.zero_le _)).append (.define rfl (.nil _))

theorem reads_guarded {span : Span} {condition consequent : Expr} (readsCondition : Reads condition)
    (readsConsequent : Reads consequent) : Reads (.guarded span condition consequent) := by
  intro depth frames _
  obtain ⟨gap, inner, allowed, spelled⟩ := tokens_guarded span condition consequent depth
  obtain ⟨test, tested, readTest, settledTest⟩ :=
    readsCondition.settled depth (.condition :: frames) rfl
  obtain ⟨value, stack, read, settled⟩ :=
    readsConsequent.settled inner (.consequent condition.bare :: frames) rfl
  refine ⟨.guarded .zero condition.bare consequent.bare, [], ?_, .nil _⟩
  rw [spelled, run_cons]
  change run ⟨.start, .condition :: frames⟩ _ = _
  rw [run_append readTest, run_mark settledTest (by decide)]
  change run ⟨.start, .consequent condition.bare :: frames⟩ _ = _
  rw [run_gap allowed, run_append read, run_gap_mark allowed settled rfl rfl (by decide)]
  rfl

theorem run_lines {exprs : List Expr} (reads : ∀ line ∈ exprs, Reads line) (depth : Nat)
    (params : Option (List String)) (done : List Expr) (frames : List Frame) (rest : List Token) :
    run ⟨.start, .lines params done :: frames⟩
        (exprs.flatMap (fun line => tokens (expr line depth) ++ [.mark '\n']) ++ rest)
      = run ⟨.start, .lines params ((exprs.map Expr.bare).reverse ++ done) :: frames⟩ rest := by
  induction exprs generalizing done with
  | nil => rfl
  | cons line others ih =>
    obtain ⟨here, later⟩ := List.forall_mem_cons.mp reads
    obtain ⟨value, stack, read, settled⟩ := here.settled depth (.lines params done :: frames) rfl
    rw [List.flatMap_cons, List.append_assoc, List.append_assoc, run_append read,
      List.singleton_append, run_mark settled (by decide)]
    change run ⟨.start, .lines params (line.bare :: done) :: frames⟩ _ = _
    rw [ih later]
    simp

theorem intercalate_map_append {α β : Type} (separator : List β) (f : α → List β) {items : List α}
    (some : items ≠ []) :
    separator.intercalate (items.map f) ++ separator = items.flatMap (f · ++ separator) := by
  induction items with
  | nil => exact absurd rfl some
  | cons item rest ih =>
    cases rest with
    | nil => simp
    | cons next more =>
      rw [List.map_cons, List.map_cons, List.intercalate_cons_cons, List.append_assoc,
        ← List.map_cons, ih (by simp)]
      rfl

theorem run_params {params : List String} (named : ∀ param ∈ params, isName param = true)
    (done : List String) (frames : List Frame) (rest : List Token) :
    run ⟨.params done, frames⟩
        ([.mark ','].intercalate (params.map tokens) ++ .mark ')' :: rest)
      = run ⟨.body (done.reverse ++ params), frames⟩ rest := by
  induction params generalizing done with
  | nil => simp [run_cons, step]
  | cons param others ih =>
    obtain ⟨here, later⟩ := List.forall_mem_cons.mp named
    have more := ih later (param :: done)
    rw [List.reverse_cons, List.append_assoc, List.singleton_append] at more
    cases others with
    | nil =>
      rw [List.map_singleton, List.intercalate_singleton, tokens_name here]
      exact more
    | cons next others =>
      rw [List.map_cons, List.map_cons, List.intercalate_cons_cons, tokens_name here]
      exact more

theorem reads_function {span : Span} {params : List String} {body : List Expr}
    (named : ∀ param ∈ params, isName param = true) (reads : ∀ line ∈ body, Reads line) :
    Reads (.function span params body) := by
  intro depth frames _
  refine ⟨.function .zero params (body.map Expr.bare), [], ?_, ?_⟩
  · rw [tokens_function, run_cons]
    change run ⟨.params [], frames⟩ _ = _
    rw [run_params named, List.reverse_nil, List.nil_append]
    change run ⟨.start, .lines (some params) [] :: frames⟩ _ = _
    cases body with
    | nil => rfl
    | cons first others =>
      have lines := run_lines reads (depth + 1) (some params) [] frames [.mark '\x7d']
      rw [← intercalate_map_append _ _ (by simp), List.append_assoc] at lines
      refine lines.trans ?_
      simp [run, step, startMark]
  · rw [Expr.bare_function]
    exact .nil _

theorem run_args {gap : List Token} (allowed : Gap gap) {args : List Expr} (some : args ≠ [])
    (reads : ∀ arg ∈ args, Reads arg) (depth : Nat) (callee : Expr) (done : List Expr)
    (frames : List Frame) :
    run ⟨.start, .args callee done :: frames⟩
        (gap ++ ((.mark ',' :: gap).intercalate (args.map fun arg => tokens (expr arg depth))
          ++ (gap ++ [.mark ')'])))
      = .some ⟨.value (.call .zero callee (done.reverse ++ args.map Expr.bare)), frames⟩ := by
  induction args generalizing done with
  | nil => exact absurd rfl some
  | cons arg others ih =>
    obtain ⟨here, later⟩ := List.forall_mem_cons.mp reads
    obtain ⟨value, stack, read, settled⟩ := here.settled depth (.args callee done :: frames) rfl
    rw [run_gap allowed]
    cases others with
    | nil =>
      rw [List.map_singleton, List.intercalate_singleton, run_append read,
        run_gap_mark allowed settled rfl rfl (by decide)]
      rfl
    | cons next more =>
      rw [List.map_cons, List.map_cons, List.intercalate_cons_cons, List.append_assoc,
        List.append_assoc, run_append read, List.cons_append, run_mark settled (by decide)]
      refine (ih (by simp) later (arg.bare :: done)).trans ?_
      simp

theorem reads_call {span : Span} {callee : Expr} {args : List Expr} (readsCallee : Reads callee)
    (reads : ∀ arg ∈ args, Reads arg) : Reads (.call span callee args) := by
  intro depth frames _
  obtain ⟨gap, allowed, bare, spelled⟩ := tokens_call span callee args depth
  -- what is called is a name, a call or in parentheses, so nothing is pending behind it
  have tight : (if (!isPlainCallee callee) then 3 else level callee) = 3 := by
    cases callee <;> rfl
  obtain ⟨value, pending, read, around⟩ :=
    readsCallee.operand (!isPlainCallee callee) depth frames (by rw [tight]; exact below_three _)
  rw [tight] at around
  obtain ⟨rfl, rfl⟩ := around.eq_nil
  refine ⟨.call .zero callee.bare (args.map Expr.bare), [], ?_, ?_⟩
  · rw [spelled, run_append read, run_cons]
    change run ⟨.start, .args callee.bare [] :: frames⟩ _ = _
    by_cases some : args = []
    · subst some
      rw [bare rfl]
      rfl
    · exact run_args allowed some reads (depth + 1) callee.bare [] frames
  · rw [Expr.bare_call]
    exact .nil _

theorem reads (tree : Expr) (plain : tree.Everywhere Plain) : Reads tree := by
  induction tree using Expr.children_induction with
  | node tree ih =>
    obtain ⟨here, below⟩ := Expr.everywhere_iff.mp plain
    replace ih := fun child member => ih child member (below child member)
    cases tree with
    | hole => exact here.elim
    | literal span value => exact reads_literal here
    | read span name => exact reads_read here
    | define span name value => exact reads_define here (ih value (by simp [Expr.children]))
    | binary span symbol left right =>
      obtain ⟨op, rfl⟩ := here
      exact reads_binary (ih left (by simp [Expr.children])) (ih right (by simp [Expr.children]))
    | guarded span condition consequent =>
      exact reads_guarded (ih condition (by simp [Expr.children]))
        (ih consequent (by simp [Expr.children]))
    | function span params body => exact reads_function here ih
    | call span callee args =>
      exact reads_call (ih callee (by simp [Expr.children])) fun arg member =>
        ih arg (by simp [Expr.children, member])

/-! ## Programs -/

theorem tokens_layout (program : Program) :
    tokens program.layout
      = program.statements.flatMap fun statement => tokens (expr statement 0) ++ [.mark '\n'] := by
  unfold Program.layout
  rw [exprs_eq_map]
  induction program.statements with
  | nil => rfl
  | cons statement rest ih =>
    rw [List.map_cons, List.map_cons, String.join_cons, String.append_assoc,
      tokens_between (by decide) (by decide), ih, List.flatMap_cons, List.append_assoc]
    rfl

theorem parse_layout {program : Program}
    (plain : ∀ statement ∈ program.statements, statement.Everywhere Plain) :
    parse program.layout = some (program.statements.map Expr.bare) := by
  have lines := run_lines (fun statement member => reads statement (plain statement member)) 0
    none [] [] []
  rw [List.append_nil, ← tokens_layout, List.append_nil] at lines
  unfold parse
  rw [lines]
  simp [run]

end Sapling.Layout

namespace Sapling

/-- The parser recovers every plain program from its layout, except for the places of its nodes.
Hence two plain programs with the same layout differ in these places only. -/
theorem Program.layout_unambiguous :
    (∀ program : Program,
      (∀ statement ∈ program.statements, statement.Everywhere Layout.Plain) →
      Layout.parse program.layout = some (program.statements.map Expr.bare)) ∧
    (∀ first second : Program,
      (∀ statement ∈ first.statements, statement.Everywhere Layout.Plain) →
      (∀ statement ∈ second.statements, statement.Everywhere Layout.Plain) →
      first.layout = second.layout →
      first.statements.map Expr.bare = second.statements.map Expr.bare) := by
  refine ⟨fun program plain => Layout.parse_layout plain, ?_⟩
  intro first second plain other same
  have parsed := Layout.parse_layout plain
  rw [same, Layout.parse_layout other] at parsed
  exact (Option.some.inj parsed).symm

def Program.bracketed (place : Span) : Program :=
  let x : Expr := .read place "x"
  let one : Expr := .literal place (-1)
  ⟨place, [.define place "f" (.function place ["x"]
    [.guarded place (.binary place ">" x (.binary place "+" x one)) x,
      .call place (.binary place "-" x (.binary place "-" one x))
        [.define place "y" x, .binary place "+" (.define place "z" one) x]])]⟩

theorem Program.layout_unambiguous_bracketed :
    let here := Program.bracketed ⟨"tree.yaml", 1, 1⟩
    let there := Program.bracketed ⟨"other.yaml", 2, 3⟩
    (∀ statement ∈ here.statements, statement.Everywhere Layout.Plain) ∧
      (∀ statement ∈ there.statements, statement.Everywhere Layout.Plain) ∧
      here.layout = there.layout ∧
      Layout.parse here.layout = some (here.statements.map Expr.bare) ∧
      here.statements.map Expr.bare = there.statements.map Expr.bare := by
  intro here there
  have plain : ∀ place, ∀ statement ∈ (Program.bracketed place).statements,
      statement.Everywhere Layout.Plain := by
    have names : ∀ name ∈ ["f", "x", "y", "z"], Layout.isName name = true := by decide
    have finite : (-1 : Float).isFinite = true := by decide
    have greater : ∃ op : Operator, ">" = op.symbol := ⟨.greater, rfl⟩
    have plus : ∃ op : Operator, "+" = op.symbol := ⟨.add, rfl⟩
    have minus : ∃ op : Operator, "-" = op.symbol := ⟨.subtract, rfl⟩
    intro place
    simp [Program.bracketed, Expr.Everywhere, Expr.everywhereAll, Layout.Plain, names, finite,
      greater, plus, minus]
  have same : here.layout = there.layout := rfl
  exact ⟨plain _, plain _, same, Program.layout_unambiguous.1 here (plain _),
    Program.layout_unambiguous.2 here there (plain _) (plain _) same⟩

end Sapling
