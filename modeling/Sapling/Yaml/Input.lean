/-!
# The characters of a document

A document is UTF-8, or UTF-16 when it opens with a byte order mark.  Bytes are taken in windows
of 512; a byte that cannot be read spoils its whole window, so that only the characters in front of
that window can be had without meeting the fault.
-/

set_option autoImplicit false

namespace Sapling.Yaml

inductive Fault
  | leadingOctet
  | incompleteOctets
  | trailingOctet
  | sequenceLength
  | notCharacter
  | incompleteUnit
  | unexpectedLow
  | incompletePair
  | expectedLow
  | control
  | device (reason : String)
  deriving DecidableEq, Repr

def Fault.message : Fault → String
  | leadingOctet => "invalid leading UTF-8 octet"
  | incompleteOctets => "incomplete UTF-8 octet sequence"
  | trailingOctet => "invalid trailing UTF-8 octet"
  | sequenceLength => "invalid length of a UTF-8 sequence"
  | notCharacter => "invalid Unicode character"
  | incompleteUnit => "incomplete UTF-16 character"
  | unexpectedLow => "unexpected low surrogate area"
  | incompletePair => "incomplete UTF-16 surrogate pair"
  | expectedLow => "expected low surrogate area"
  | control => "control characters are not allowed"
  | device reason => "input error: " ++ reason

/-- The characters of a document, and what lies behind them.  `windows` says how many characters
each sound window holds; characters beyond those stand in a spoilt one, in front of its fault. -/
structure Input where
  chars : List Char
  windows : List Nat
  fault : Option Fault

namespace Input

inductive Encoding
  | utf8
  | utf16 (bigEndian : Bool)

inductive Glyph
  | point (code width : Nat)
  /-- Bytes that are no character, found once `width` of them were there. -/
  | bad (width : Nat) (fault : Fault)
  | short (width : Nat) (fault : Fault)

def continuation (value : Nat) : List UInt8 → Option Nat
  | [] => some value
  | octet :: rest =>
    if octet &&& 0xC0 = 0x80 then continuation (value * 64 + (octet &&& 0x3F).toNat) rest else none

def ofOctets (width code : Nat) : Glyph :=
  if width = 2 ∧ code < 0x80 ∨ width = 3 ∧ code < 0x800 ∨ width = 4 ∧ code < 0x10000 then
    .bad width .sequenceLength
  else if 0xD800 ≤ code ∧ code ≤ 0xDFFF ∨ 0x10FFFF < code then .bad width .notCharacter
  else .point code width

def nextUtf8 (first : UInt8) (rest : List UInt8) : Glyph :=
  let sequence (width : Nat) (lead : UInt8) : Glyph :=
    let tail := rest.take (width - 1)
    if tail.length < width - 1 then .short width .incompleteOctets
    else match continuation lead.toNat tail with
      | none => .bad width .trailingOctet
      | some code => ofOctets width code
  if first &&& 0x80 = 0 then .point first.toNat 1
  else if first &&& 0xE0 = 0xC0 then sequence 2 (first &&& 0x1F)
  else if first &&& 0xF0 = 0xE0 then sequence 3 (first &&& 0x0F)
  else if first &&& 0xF8 = 0xF0 then sequence 4 (first &&& 0x07)
  else .bad 1 .leadingOctet

def unit (bigEndian : Bool) (first second : UInt8) : Nat :=
  if bigEndian then first.toNat * 256 + second.toNat else second.toNat * 256 + first.toNat

def nextUtf16 (bigEndian : Bool) (first : UInt8) : List UInt8 → Glyph
  | [] => .short 2 .incompleteUnit
  | second :: rest =>
    let code := unit bigEndian first second
    if 0xDC00 ≤ code ∧ code ≤ 0xDFFF then .bad 2 .unexpectedLow
    else if 0xD800 ≤ code ∧ code ≤ 0xDBFF then
      match rest with
      | third :: fourth :: _ =>
        let low := unit bigEndian third fourth
        if 0xDC00 ≤ low ∧ low ≤ 0xDFFF then
          .point (0x10000 + (code - 0xD800) * 1024 + (low - 0xDC00)) 4
        else .bad 4 .expectedLow
      | _ => .short 4 .incompletePair
    else .point code 2

def Encoding.next : Encoding → UInt8 → List UInt8 → Glyph
  | .utf8, first, rest => nextUtf8 first rest
  | .utf16 bigEndian, first, rest => nextUtf16 bigEndian first rest

def allowed (code : Nat) : Bool :=
  code == 0x09 || code == 0x0A || code == 0x0D || (0x20 ≤ code && code ≤ 0x7E) || code == 0x85
    || (0xA0 ≤ code && code ≤ 0xD7FF) || (0xE000 ≤ code && code ≤ 0xFFFD)
    || (0x10000 ≤ code && code ≤ 0x10FFFF)

def window : Nat := 512

/-- Reads on.  `used` bytes of the current window are behind, and `held` characters of it are the
last ones of `done`; `done` and `windows` are last first.  `skip` bytes belong to the character
already read.  A character that the window cannot hold opens the next one. -/
def decode (encoding : Encoding) : List UInt8 → (skip used : Nat) → (done : List Char) →
    (held : Nat) → (windows : List Nat) → Input
  | [], _, _, done, held, windows => ⟨done.reverse, (held :: windows).reverse, none⟩
  | _ :: rest, skip + 1, used, done, held, windows =>
    decode encoding rest skip used done held windows
  | first :: rest, 0, used, done, held, windows =>
    match encoding.next first rest with
    | .short _ fault => ⟨done.reverse, (held :: windows).reverse, some fault⟩
    | .bad width fault =>
      let windows := if used + width ≤ window then windows else held :: windows
      ⟨done.reverse, windows.reverse, some fault⟩
    | .point code width =>
      let fits := used + width ≤ window
      let windows := if fits then windows else held :: windows
      let held := if fits then held else 0
      let used := if fits then used + width else width
      if allowed code then
        decode encoding rest (width - 1) used (Char.ofNat code :: done) (held + 1) windows
      else ⟨done.reverse, windows.reverse, some .control⟩

/-- The characters that bytes spell.  Fewer than three bytes are known to be all of the document
before the first of them is read, so that an unfinished character spoils the others. -/
def ofBytes (bytes : List UInt8) : Input :=
  let read := match bytes with
    | 0xFF :: 0xFE :: rest => decode (.utf16 false) rest 0 2 [] 0 []
    | 0xFE :: 0xFF :: rest => decode (.utf16 true) rest 0 2 [] 0 []
    | 0xEF :: 0xBB :: 0xBF :: rest => decode .utf8 rest 0 3 [] 0 []
    | bytes => decode .utf8 bytes 0 0 [] 0 []
  if (bytes.drop 2).isEmpty && read.fault.isSome then { read with windows := [] } else read

end Input
end Sapling.Yaml
