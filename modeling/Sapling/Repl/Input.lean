import Sapling.Text.Utf8

/-!
# Input of a session

Lines as a reader with a buffer of fixed size gives them, inputs that go on until their brackets
are closed, and the history of inputs.
-/

set_option autoImplicit false

namespace Sapling.Repl

/-! ## Brackets -/

structure Nesting where
  depth : Int
  quote : Option UInt8
  deriving DecidableEq

def isQuote (byte : UInt8) : Bool := byte == 34 || byte == 39

def isOpening (byte : UInt8) : Bool := byte == 123 || byte == 91

def isClosing (byte : UInt8) : Bool := byte == 125 || byte == 93

/-- Takes a byte: quoted text ends at the next mark of the kind it started with. -/
def Nesting.step (nesting : Nesting) (byte : UInt8) : Nesting :=
  match nesting.quote with
  | some mark => if byte = mark then { nesting with quote := none } else nesting
  | none =>
    if isQuote byte then { nesting with quote := some byte }
    else if isOpening byte then { nesting with depth := nesting.depth + 1 }
    else if isClosing byte then { nesting with depth := nesting.depth - 1 }
    else nesting

def isOpen (input : List UInt8) : Bool := 0 < (input.foldl Nesting.step ⟨0, none⟩).depth

/-! ## Lines -/

/-- The size of the reader's buffer.  A longer line comes in pieces. -/
def bufferSize : Nat := 4096

structure Line where
  bytes : List UInt8
  isPiece : Bool

/-- The first line of bytes, and how many bytes it takes with its end.  A carriage return that would
end a piece is left for the next line. -/
def firstLine (bytes : List UInt8) : Line × Nat :=
  let window := bytes.take bufferSize
  let text := window.takeWhile (· != Text.lineFeed)
  if text.length < window.length then (⟨Text.dropReturn text, false⟩, text.length + 1)
  else if window.length < bufferSize then (⟨text, false⟩, text.length)
  else
    let piece := Text.dropReturn text
    (⟨piece, true⟩, piece.length)

def linesFrom (bytes : List UInt8) (done : List Line) : List Line :=
  match bytes with
  | [] => done.reverse
  | byte :: rest =>
    let (line, taken) := firstLine (byte :: rest)
    linesFrom (rest.drop (taken - 1)) (line :: done)
termination_by bytes.length
decreasing_by simp only [List.length_drop, List.length_cons]; omega

def lines (bytes : List UInt8) : List Line := linesFrom bytes []

/-! ## History -/

def historyLimit : Nat := 1000

def remember (history : List (List UInt8)) (input : List UInt8) : List (List UInt8) :=
  let history := history ++ [input]
  history.drop (history.length - historyLimit)

def rememberNew (history : List (List UInt8)) (input : List UInt8) : List (List UInt8) :=
  if history.getLast? = some input then history else remember history input

def isText (bytes : List UInt8) : Bool :=
  (Text.letters bytes).all fun
    | .char _ => true
    | .stray _ => false

/-- The history in a file, up to the first line that is too long or no text. -/
def historyOf (bytes : List UInt8) : List (List UInt8) :=
  let sound := (lines bytes).takeWhile fun line => !line.isPiece && isText line.bytes
  (sound.map Line.bytes).drop (sound.length - historyLimit)

def historyFile (history : List (List UInt8)) : List UInt8 :=
  history.flatMap (· ++ [Text.lineFeed])

end Sapling.Repl
