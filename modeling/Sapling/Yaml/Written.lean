import Sapling.Text.Quoted
import Sapling.Yaml.Scalar

/-!
# Writing texts

A text as the value of a key of a block mapping.  It stands plain where a reader would take it for
that very text; otherwise in single quotes, as a literal block, or in double quotes with escapes,
whichever of them can hold it.
-/

set_option autoImplicit false

namespace Sapling.Yaml

/-! ## What a text holds -/

def isUnescaped (c : Char) : Bool :=
  let n := c.toNat
  c == '\n' || (0x20 ≤ n && n ≤ 0x7E)
    || (0xA0 ≤ n && n ≤ 0xFFFD && n != 0xFEFF)

def adjoining (first second : Char → Bool) : List Char → Bool
  | a :: b :: rest => first a && second b || adjoining first second (b :: rest)
  | _ => false

def isBlankChar (c : Char) : Bool := c == ' '

def endsWith (kind : Char → Bool) (text : List Char) : Bool := (text.getLast?.map kind).getD false

def startsWith (kind : Char → Bool) (text : List Char) : Bool := (text.head?.map kind).getD false

def isOpening (c : Char) : Bool := "#,[]\x7b\x7d&*!|>'\"%@`".toList.contains c

def isOpeningWord (c : Char) : Bool := c == '?' || c == ':' || c == '-'

/-- Whether a text holds what means something else in a document: an indicator at its start, a
colon that ends a word, or a number sign that opens one. -/
def hasIndicators (text : List Char) : Bool :=
  startsWith isOpening text
    || (match text with
      | [c] => isOpeningWord c
      | c :: d :: _ => isOpeningWord c && d == ' '
      | [] => false)
    || text.take 3 == "---".toList || text.take 3 == "...".toList
    || adjoining (· == ':') isBlankChar text || endsWith (· == ':') text
    || adjoining isBlankChar (· == '#') text

def spaceThenBreak (text : List Char) : Bool := adjoining isBlankChar isBreak text

def breakThenSpace (text : List Char) : Bool := adjoining isBreak isBlankChar text

def hasSpecial (text : List Char) : Bool := text.any fun c => c != '\t' && !isUnescaped c

def fitsPlain (text : List Char) : Bool :=
  !(text.any isBreak || startsWith isBlankChar text || endsWith isBlankChar text
    || text.any (· == '\t') || hasSpecial text || hasIndicators text)

def fitsSingle (text : List Char) : Bool :=
  !(spaceThenBreak text || breakThenSpace text || text.any (· == '\t') || hasSpecial text)

def fitsBlock (text : List Char) : Bool :=
  !(endsWith isBlankChar text || spaceThenBreak text || hasSpecial text)

/-! ## What a reader would take a text for -/

def isDigitOrLine (c : Char) : Bool := c.isDigit || c == '_'

def sixtieths : (seen : Bool) → List Char → Bool
  | _, ':' :: a :: b :: rest =>
    if a.isDigit && b.isDigit then a ≤ '5' && sixtieths true rest
    else a.isDigit && sixtieths true (b :: rest)
  | _, [':', a] => a.isDigit
  | seen, '.' :: rest => seen && rest.all isDigitOrLine
  | seen, rest => seen && rest.isEmpty

def isSexagesimal (text : List Char) : Bool :=
  let (_, digits) := Number.signed text
  startsWith Char.isDigit digits && sixtieths false (digits.dropWhile isDigitOrLine)

/-- Whether every reader takes the text, if it stands plain, for that very text. -/
def readsAsText (text : String) : Bool :=
  match Scalar.ofText true text with
  | .text _ => !isSexagesimal text.toList && (olderTruth? text).isNone
  | _ => false

/-! ## Styles -/

def spread (inset : String) (escape : Char → String) : (afterBreak : Bool) → List Char → String
  | _, [] => ""
  | afterBreak, c :: rest =>
    if isBreak c then c.toString ++ spread inset escape true rest
    else (if afterBreak then inset else "") ++ escape c ++ spread inset escape false rest

def inset : String := "    "

def singleQuoted (text : List Char) : String :=
  "'" ++ spread inset (fun c => if c = '\'' then "''" else c.toString) false text ++ "'"

def writtenEscape (c : Char) : String :=
  match c with
  | '\x00' => "\\0"
  | '\x07' => "\\a"
  | '\x08' => "\\b"
  | '\t' => "\\t"
  | '\n' => "\\n"
  | '\x0b' => "\\v"
  | '\x0c' => "\\f"
  | '\r' => "\\r"
  | '\x1b' => "\\e"
  | '"' => "\\\""
  | '\\' => "\\\\"
  | '\u0085' => "\\N"
  | '\u00a0' => "\\_"
  | '\u2028' => "\\L"
  | '\u2029' => "\\P"
  | c =>
    let digits (width : Nat) :=
      String.ofList ((Text.hex width c.toNat).toList.map Char.toUpper)
    if c.toNat ≤ 0xFF then "\\x" ++ digits 2
    else if c.toNat ≤ 0xFFFF then "\\u" ++ digits 4
    else "\\U" ++ digits 8

/-- Double quotes.  In a text that opens with a byte order mark every character is escaped. -/
def doubleQuoted (text : List Char) : String :=
  let marked := text.head? == some '\ufeff'
  let written (c : Char) : String :=
    if marked || !isUnescaped c || isBreak c || c == '"' || c == '\\' then writtenEscape c
    else c.toString
  "\"" ++ String.join (text.map written) ++ "\""

/-- A literal block.  Its head says how far in it stands, where the text does not show it, and
whether the breaks at its end are dropped or kept. -/
def literalBlock (text : List Char) : String :=
  let depth := if startsWith (fun c => c == ' ' || isBreak c) text then "4" else ""
  let ending := match text.reverse with
    | [] => "-"
    | [c] => if isBreak c then "+" else "-"
    | c :: d :: _ => if !isBreak c then "-" else if isBreak d then "+" else ""
  "|" ++ depth ++ ending ++ "\n" ++ spread inset Char.toString true text

def writtenText (text : String) : String :=
  let chars := text.toList
  if chars.contains '\n' then
    if fitsBlock chars then
      literalBlock chars ++ (if endsWith isBreak chars then "" else "\n")
    else doubleQuoted chars ++ "\n"
  else if readsAsText text then
    if fitsPlain chars then text ++ "\n"
    else if fitsSingle chars then singleQuoted chars ++ "\n"
    else doubleQuoted chars ++ "\n"
  else doubleQuoted chars ++ "\n"

end Sapling.Yaml
