import Sapling.Yaml.Cursor
import Sapling.Yaml.Token

/-!
# Anchors, tags and directives

What may stand in front of a node, and in front of a document.
-/

set_option autoImplicit false

namespace Sapling.Yaml

open Read (need rest mark left complain skip skipMany skipBlanks skipBreak skipLine takeWhile)

def anchorName : Read String := do
  let start ← mark
  skip
  let name ← takeWhile isWordChar
  let closed := match ← rest with
    | c :: _ => isBlankOrBreak c || "?:,]\x7d%@`".contains c
    | [] => true
  if name.isEmpty || !closed then complain start .anchorName
  return name

/-! ## Tags -/

def isUriChar (c : Char) : Bool := isWordChar c || ";/?:@&=+$,.!~*'()[]".contains c

def octetWidth (octet : Nat) : Nat :=
  if octet < 0x80 then 1
  else if 0xC0 ≤ octet ∧ octet < 0xE0 then 2
  else if 0xE0 ≤ octet ∧ octet < 0xF0 then 3
  else if 0xF0 ≤ octet ∧ octet < 0xF8 then 4
  else 0

/-- Text whose octets were spelled one by one; what is no character becomes U+FFFD, octet by
octet. -/
def ofSpelledOctets (octets : List UInt8) : String :=
  match String.fromUTF8? octets.toByteArray with
  | some text => text
  | none => String.ofList (octets.map fun _ => '\ufffd')

def escapedOctet (context : Mark) : Read Nat := do
  need 3
  match ← rest with
  | '%' :: high :: low :: _ =>
    match hexValue? high, hexValue? low with
    | some high, some low => return high * 16 + low
    | _, _ => complain context .uriEscape
  | _ => complain context .uriEscape

def furtherOctets (context : Mark) : (wanted : Nat) → (seen : List UInt8) → Read String
  | 0, seen => return ofSpelledOctets seen.reverse
  | wanted + 1, seen => do
    let octet ← escapedOctet context
    if octet / 64 ≠ 2 then complain context .uriTrailing
    skipMany 3
    furtherOctets context wanted (octet.toUInt8 :: seen)

def escapedCharacter (context : Mark) : Read String := do
  let octet ← escapedOctet context
  match octetWidth octet with
  | 0 => complain context .uriLeading
  | width + 1 =>
    skipMany 3
    furtherOctets context width [octet.toUInt8]

def uriTextFrom (context : Mark) : (fuel : Nat) → (text : String) → Read String
  | 0, text => return text
  | fuel + 1, text => do
    match ← rest with
    | c :: _ =>
      if c == '%' then
        let character ← escapedCharacter context
        need 1
        uriTextFrom context fuel (text ++ character)
      else if isUriChar c then
        skip
        need 1
        uriTextFrom context fuel (text.push c)
      else return text
    | [] => return text

/-- Takes a tag's text.  `head` was read already, and its leading `!` does not count; some text
must stand there in all. -/
def tagUri (context : Mark) (head : String) : Read String := do
  need 1
  let text ← uriTextFrom context (← left) (String.ofList (head.toList.drop 1))
  if head.isEmpty && text.isEmpty then complain context .tagUri
  return text

def tagHandle (directive : Bool) (context : Mark) : Read String := do
  need 1
  unless (← rest).head? == some '!' do complain context .tagMark
  skip
  let word ← takeWhile isWordChar
  if (← rest).head? == some '!' then
    skip
    return "!" ++ word ++ "!"
  if directive && !word.isEmpty then complain context .tagMark
  return "!" ++ word

/-- Takes a tag as handle and suffix.  A tag in angle brackets, and `!` alone, has no handle. -/
def tagParts : Read (String × String) := do
  let start ← mark
  need 2
  let parts ← match ← rest with
    | _ :: '<' :: _ => do
      skipMany 2
      let text ← tagUri start ""
      unless (← rest).head? == some '>' do complain start .tagAngle
      skip
      pure ("", text)
    | _ => do
      let handle ← tagHandle false start
      if handle.length > 1 && handle.endsWith "!" then
        pure (handle, ← tagUri start "")
      else
        let suffix ← tagUri start handle
        pure (if suffix.isEmpty then ("", handle) else ("!", suffix))
  need 1
  unless endsWord (← rest) do complain start .tagEnd
  return parts

/-! ## Directives -/

def versionDigits (context : Mark) : (room : Nat) → (number : Nat) → Read Nat
  | room, number => do
    match ← rest with
    | c :: _ =>
      if c.isDigit then
        match room with
        | 0 => complain context .versionLong
        | room + 1 =>
          skip
          need 1
          versionDigits context room (number * 10 + (c.toNat - 48))
      else return number
    | [] => return number

def versionNumber (context : Mark) : Read Nat := do
  need 1
  unless ((← rest).head?.map Char.isDigit).getD false do complain context .versionMissing
  versionDigits context 2 0

def versionDirective (start : Mark) : Read TokenKind := do
  skipBlanks
  let major ← versionNumber start
  unless (← rest).head? == some '.' do complain start .versionDot
  skip
  return .versionDirective major (← versionNumber start)

def tagDirective (start : Mark) : Read TokenKind := do
  skipBlanks
  let handle ← tagHandle true start
  need 1
  unless ((← rest).head?.map isBlank).getD false do complain start .tagDirectiveBlank
  skipBlanks
  let expansion ← tagUri start ""
  need 1
  unless endsWord (← rest) do complain start .tagDirectiveEnd
  return .tagDirective handle expansion

def directive : Read TokenKind := do
  let start ← mark
  skip
  let name ← takeWhile isWordChar
  if name.isEmpty then complain start .directiveName
  unless endsWord (← rest) do complain start .directiveNameEnd
  let kind ←
    if name = "YAML" then versionDirective start
    else if name = "TAG" then tagDirective start
    else complain start .unknownDirective
  skipBlanks
  if (← rest).head? == some '#' then skipLine
  unless endsLine (← rest) do complain start .directiveEnd
  skipBreak
  return kind

end Sapling.Yaml
