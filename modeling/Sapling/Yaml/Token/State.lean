import Sapling.Yaml.Cursor
import Sapling.Yaml.Token

/-!
# Where scanning stands

The scanner keeps the columns of the open blocks, and for the block level and each open flow
collection the place where a key without `?` may have started.  Tokens wait in a queue until they
are handed out, and comments until the token they belong to is.
-/

set_option autoImplicit false

namespace Sapling.Yaml

/-- A place where a key may have started: the number of its first token.  A required key is one
whose column leaves no other reading. -/
structure PossibleKey where
  isPossible : Bool
  isRequired : Bool
  number : Nat
  mark : Mark
  deriving Repr

/-- A key stays on its line, and its `:` follows within 1024 characters. -/
def PossibleKey.reaches (key : PossibleKey) (mark : Mark) : Bool :=
  mark.line ≤ key.mark.line && mark.index ≤ key.mark.index + 1024

inductive CommentPlace
  | head
  | line
  | foot
  deriving DecidableEq, Repr

structure Comment where
  place : CommentPlace
  isApart : Bool
  token : Nat
  start : Mark
  /-- Where the search that found it began and ended; zero for a comment on the same line. -/
  searchStart : Nat
  searchStop : Nat

structure Scanner where
  cursor : Cursor
  queue : List Token
  handedOut : Nat
  indent : Option Nat
  outer : List (Option Nat)
  blocks : Nat
  keys : List PossibleKey
  flowLevel : Nat
  /-- The tokens that are held as possible keys, by number, each with its flow level. -/
  held : List (Nat × Nat)
  keyAllowed : Bool
  comments : List Comment
  /-- What went wrong without stopping the scanner; reading stops at the next event. -/
  trouble : Option Error

def Scanner.start (input : Input) : Scanner where
  cursor := Cursor.start input
  queue := []
  handedOut := 0
  indent := none
  outer := []
  blocks := 0
  keys := []
  flowLevel := 0
  held := []
  keyAllowed := true
  comments := []
  trouble := none

abbrev Scan := EStateM Error Scanner

namespace Scan

def read {α : Type} (action : Read α) : Scan α := fun s =>
  match action s.cursor with
  | .ok value cursor => .ok value { s with cursor }
  | .error error cursor => .error error { s with cursor }

def mark : Scan Mark := return (← get).cursor.mark

def next? : Scan (Option Char) := return (← get).cursor.rest.head?

def inFlow : Scan Bool := return (← get).flowLevel != 0

def complain {α : Type} (context : Mark) (cause : Misspelling) : Scan α :=
  read (Read.complain context cause)

def allowKey (keyAllowed : Bool) : Scan Unit := modify ({ · with keyAllowed })

/-! ## The queue -/

def nextNumber : Scan Nat := do
  let s ← get
  return s.handedOut + s.queue.length

def push (kind : TokenKind) (start stop : Mark) : Scan Unit :=
  modify fun s => { s with queue := s.queue ++ [⟨kind, start, stop⟩] }

def insert (number : Nat) (kind : TokenKind) (mark : Mark) : Scan Unit :=
  modify fun s =>
    let token : Token := ⟨kind, mark, mark⟩
    { s with queue :=
        if number < s.handedOut then s.queue ++ [token]
        else s.queue.insertIdx (number - s.handedOut) token }

def pushHere (kind : TokenKind) (width : Nat) : Scan Unit := do
  let start ← mark
  read (Read.skipMany width)
  push kind start (← mark)

end Scan
end Sapling.Yaml
