import Sapling.Yaml.Error

/-!
# Reading characters

A cursor stands in front of the characters still to be read.  They come in window by window: a
reader asks for as many characters as it is going to look at, and a fault in the bytes shows only
when the characters in front of it are not enough.
-/

set_option autoImplicit false

namespace Sapling.Yaml

/-! ## Characters -/

def isBlank (c : Char) : Bool := c == ' ' || c == '\t'

def isBreak (c : Char) : Bool :=
  c == '\n' || c == '\r' || c == '\u0085' || c == '\u2028' || c == '\u2029'

def isBlankOrBreak (c : Char) : Bool := isBlank c || isBreak c

def isWordChar (c : Char) : Bool := c.isAlphanum || c == '_' || c == '-'

def hexValue? (c : Char) : Option Nat :=
  if '0' ≤ c ∧ c ≤ '9' then some (c.toNat - 48)
  else if 'a' ≤ c ∧ c ≤ 'f' then some (c.toNat - 87)
  else if 'A' ≤ c ∧ c ≤ 'F' then some (c.toNat - 55)
  else none

def endsWord : List Char → Bool
  | [] => true
  | c :: _ => isBlankOrBreak c

def endsLine : List Char → Bool
  | [] => true
  | c :: _ => isBreak c

def isDocumentMark : List Char → Bool
  | '-' :: '-' :: '-' :: rest => endsWord rest
  | '.' :: '.' :: '.' :: rest => endsWord rest
  | _ => false

/-! ## Cursors -/

structure Cursor where
  rest : List Char
  mark : Mark
  breaks : Nat
  /-- How many characters have come in and are still to be read.  The end of the document counts
  as one each time more is asked for. -/
  ready : Nat
  windows : List Nat
  fault : Option Fault
  marked : Bool
  size : Nat

namespace Cursor

def start (input : Input) : Cursor where
  rest := input.chars
  mark := Mark.start
  breaks := 0
  ready := 0
  windows := input.windows
  fault := input.fault
  marked := false
  size := input.chars.length

def left (cursor : Cursor) : Nat := cursor.size - cursor.mark.index

def fill (count : Nat) : (windows : List Nat) → (ready : Nat) → List Nat × Nat
  | [], ready => ([], ready)
  | window :: rest, ready =>
    if count ≤ ready then (window :: rest, ready) else fill count rest (ready + window)

end Cursor

abbrev Read := EStateM Error Cursor

namespace Read

/-- Asks for `count` characters.  Where there are fewer, the document ends, unless it has a fault;
then those of the spoilt window come in, too. -/
def need (count : Nat) : Read Unit := fun cursor =>
  if count ≤ cursor.ready then .ok () cursor
  else
    let (windows, ready) := Cursor.fill count cursor.windows cursor.ready
    let marked := cursor.rest.head? == some '\ufeff'
    if count ≤ ready then .ok () { cursor with windows, ready, marked }
    else match cursor.fault with
      | none => .ok () { cursor with windows, ready := ready + 1, marked }
      | some fault =>
        .error (.unreadable 0 0 fault) { cursor with windows, ready := cursor.left, marked }

def rest : Read (List Char) := fun cursor => .ok cursor.rest cursor

def mark : Read Mark := fun cursor => .ok cursor.mark cursor

def column : Read Nat := fun cursor => .ok cursor.mark.column cursor

def left : Read Nat := fun cursor => .ok cursor.left cursor

def complain {α : Type} (context : Mark) (cause : Misspelling) : Read α := fun cursor =>
  .error (.misspelt context.line cursor.mark.line cause) cursor

def skip : Read Unit := fun cursor =>
  let breaks := match cursor.rest with
    | c :: _ => if isBlank c then cursor.breaks else 0
    | [] => 0
  .ok () { cursor with
    rest := cursor.rest.tail, mark := cursor.mark.right, breaks, ready := cursor.ready - 1 }

def skipMany : (count : Nat) → Read Unit
  | 0 => return
  | count + 1 => do
    skip
    skipMany count

/-- Moves over a line break and gives its character, if there is one here.  A carriage return, with
or without a line feed, and U+0085 count as a line feed. -/
def takeBreak : Read (Option Char) := fun cursor =>
  let behind (count : Nat) : Cursor := { cursor with
    rest := cursor.rest.drop count, mark := cursor.mark.down count
    breaks := cursor.breaks + 1, ready := cursor.ready - count }
  match cursor.rest with
  | '\r' :: '\n' :: _ => .ok (some '\n') (behind 2)
  | c :: _ =>
    if c == '\u2028' || c == '\u2029' then .ok (some c) (behind 1)
    else if isBreak c then .ok (some '\n') (behind 1)
    else .ok none cursor
  | [] => .ok none cursor

def skipBreak : Read Unit := do
  match ← rest with
  | c :: _ =>
    if isBreak c then
      need 2
      discard takeBreak
  | [] => return

def takeWhileFrom (p : Char → Bool) : (fuel : Nat) → (text : String) → Read String
  | 0, text => return text
  | fuel + 1, text => do
    match ← rest with
    | c :: _ =>
      if p c then
        skip
        need 1
        takeWhileFrom p fuel (text.push c)
      else return text
    | [] => return text

def takeWhile (p : Char → Bool) : Read String := do
  need 1
  takeWhileFrom p (← left) ""

def skipBlanks : Read Unit := discard (takeWhile isBlank)

def skipLine : Read Unit := discard (takeWhile fun c => !isBreak c)

end Read
end Sapling.Yaml
