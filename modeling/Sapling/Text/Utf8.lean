import Sapling.Text.Quoted

/-!
# Texts as bytes

Bytes that are meant to be UTF-8, where some may not be: every byte that belongs to no character is
a letter of its own.  Texts are trimmed and divided into words at white space, and bytes are divided
into lines at line feeds.
-/

set_option autoImplicit false

namespace Sapling.Text

/-! ## White space -/

def isSpace (c : Char) : Bool :=
  let n := c.toNat
  (0x09 ≤ n && n ≤ 0x0D) || n == 0x20 || n == 0x85 || n == 0xA0 || n == 0x1680
    || (0x2000 ≤ n && n ≤ 0x200A) || n == 0x2028 || n == 0x2029 || n == 0x202F || n == 0x205F
    || n == 0x3000

def trim (text : String) : String :=
  let front := text.toList.dropWhile isSpace
  String.ofList (front.reverse.dropWhile isSpace).reverse

def wordsFrom : List Char → (word : List Char) → List String
  | [], word => if word.isEmpty then [] else [String.ofList word.reverse]
  | c :: rest, word =>
    if isSpace c then
      if word.isEmpty then wordsFrom rest [] else String.ofList word.reverse :: wordsFrom rest []
    else wordsFrom rest (c :: word)

def words (text : String) : List String := wordsFrom text.toList []

/-! ## Letters -/

inductive Letter
  | char (c : Char)
  | stray (byte : UInt8)
  deriving DecidableEq

/-- How many bytes a character with this first byte has, the bits of its first byte, and the least
code that needs so many. -/
def leading (first : UInt8) : Option (Nat × Nat × Nat) :=
  let n := first.toNat
  if n < 0x80 then some (1, n, 0)
  else if 0xC2 ≤ n ∧ n ≤ 0xDF then some (2, n - 0xC0, 0x80)
  else if 0xE0 ≤ n ∧ n ≤ 0xEF then some (3, n - 0xE0, 0x800)
  else if 0xF0 ≤ n ∧ n ≤ 0xF4 then some (4, n - 0xF0, 0x10000)
  else none

def following (code : Option Nat) (byte : UInt8) : Option Nat :=
  if 0x80 ≤ byte.toNat ∧ byte.toNat < 0xC0 then
    code.map fun code => code * 64 + (byte.toNat - 0x80)
  else none

def nextChar (first : UInt8) (rest : List UInt8) : Option (Char × Nat) :=
  match leading first with
  | none => none
  | some (width, bits, least) =>
    let more := rest.take (width - 1)
    if more.length + 1 < width then none
    else match more.foldl following (some bits) with
      | none => none
      | some code =>
        if least ≤ code ∧ code.isValidChar then some (Char.ofNat code, width - 1) else none

def lettersFrom : List UInt8 → (done : List Letter) → List Letter
  | [], done => done.reverse
  | first :: rest, done =>
    match nextChar first rest with
    | some (c, taken) => lettersFrom (rest.drop taken) (.char c :: done)
    | none => lettersFrom rest (.stray first :: done)
termination_by bytes => bytes.length
decreasing_by
  · simp only [List.length_drop, List.length_cons]; omega
  · simp only [List.length_cons]; omega

def letters (bytes : List UInt8) : List Letter := lettersFrom bytes []

def Letter.bytes : Letter → List UInt8
  | char c => String.utf8EncodeChar c
  | stray byte => [byte]

def replacement : Char := '\ufffd'

def Letter.shown : Letter → Char
  | char c => c
  | stray _ => replacement

def Letter.isSpace : Letter → Bool
  | char c => Text.isSpace c
  | stray _ => false

def toBytes (text : String) : List UInt8 := text.toUTF8.toList

def ofBytes (bytes : List UInt8) : String := String.ofList ((letters bytes).map Letter.shown)

def jsonOfBytes (bytes : List UInt8) : String :=
  let letter : Letter → String
    | .char c => jsonChar c
    | .stray _ => "\\ufffd"
  "\"" ++ String.join ((letters bytes).map letter) ++ "\""

def trimBytes (bytes : List UInt8) : List UInt8 :=
  let front := (letters bytes).dropWhile Letter.isSpace
  (front.reverse.dropWhile Letter.isSpace).reverse.flatMap Letter.bytes

/-! ## Lines -/

def lineFeed : UInt8 := 10

def carriageReturn : UInt8 := 13

/-- The lines of bytes, without their line feeds; `line` holds the current one, last byte first, and
`done` the lines in front of it, last first.  What follows the last line feed is a line if there is
anything. -/
def linesFrom : List UInt8 → (line : List UInt8) → (done : List (List UInt8)) → List (List UInt8)
  | [], line, done => (if line.isEmpty then done else line.reverse :: done).reverse
  | byte :: rest, line, done =>
    if byte = lineFeed then linesFrom rest [] (line.reverse :: done)
    else linesFrom rest (byte :: line) done

def lines (bytes : List UInt8) : List (List UInt8) := linesFrom bytes [] []

def dropReturn (line : List UInt8) : List UInt8 :=
  if line.getLast? = some carriageReturn then line.dropLast else line

end Sapling.Text
