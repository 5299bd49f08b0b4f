import Sapling.Number.Spelling

/-!
# Reading JSON

A text in JSON, read character by character with a stack of the collections that are open, so that
deep nesting takes no space for recursive calls.  Keys stay in the order they are written, repeated
or not.
-/

set_option autoImplicit false

namespace Sapling

/-- A value in JSON.  A number is kept as it is spelled. -/
inductive JsonValue
  | null
  | boolean (value : Bool)
  | number (spelling : String)
  | text (value : String)
  | list (items : List JsonValue)
  | object (fields : List (String × JsonValue))
  deriving Inhabited

namespace JsonValue

def nestingLimit : Nat := 10000

inductive Opened
  | list (items : List JsonValue)
  | object (fields : List (String × JsonValue)) (key : String)

inductive Expecting
  | value
  | firstItem
  | key
  | firstKey
  | colon
  | separator
  | nothing
  deriving DecidableEq

inductive Position
  | between
  | inNumber (spelling : List Char)
  | inWord (letters : List Char)
  /-- `high` is the first half of a pair that waits for its second. -/
  | inText (chars : List Char) (high : Option Nat)
  | afterBackslash (chars : List Char) (high : Option Nat)
  | inCode (chars : List Char) (high : Option Nat) (digits value : Nat)

structure Reader where
  position : Position
  expecting : Expecting
  opened : List Opened
  result : Option JsonValue

namespace Reader

def start : Reader := ⟨.between, .value, [], none⟩

def takeValue (reader : Reader) (value : JsonValue) : Option Reader :=
  if reader.expecting ≠ .value ∧ reader.expecting ≠ .firstItem then none
  else match reader.opened with
    | [] => some ⟨.between, .nothing, [], some value⟩
    | .list items :: rest => some ⟨.between, .separator, .list (value :: items) :: rest, none⟩
    | .object fields key :: rest =>
      some ⟨.between, .separator, .object ((key, value) :: fields) "" :: rest, none⟩

def takeText (reader : Reader) (text : String) : Option Reader :=
  if reader.expecting = .key ∨ reader.expecting = .firstKey then
    match reader.opened with
    | .object fields _ :: rest => some ⟨.between, .colon, .object fields text :: rest, none⟩
    | _ => none
  else reader.takeValue (.text text)

def openCollection (reader : Reader) (opened : Opened) (expecting : Expecting) : Option Reader :=
  if reader.expecting ≠ .value ∧ reader.expecting ≠ .firstItem then none
  else if reader.opened.length ≥ nestingLimit then none
  else some ⟨.between, expecting, opened :: reader.opened, none⟩

def close (reader : Reader) (value : JsonValue) (rest : List Opened) : Option Reader :=
  ({ reader with expecting := .value, opened := rest } : Reader).takeValue value

def closeList (reader : Reader) : Option Reader :=
  match reader.opened with
  | .list items :: rest =>
    if reader.expecting = .separator ∨ reader.expecting = .firstItem then
      reader.close (.list items.reverse) rest
    else none
  | _ => none

def closeObject (reader : Reader) : Option Reader :=
  match reader.opened with
  | .object fields _ :: rest =>
    if reader.expecting = .separator ∨ reader.expecting = .firstKey then
      reader.close (.object fields.reverse) rest
    else none
  | _ => none

def comma (reader : Reader) : Option Reader :=
  if reader.expecting ≠ .separator then none
  else match reader.opened with
    | .list _ :: _ => some { reader with expecting := .value }
    | .object _ _ :: _ => some { reader with expecting := .key }
    | [] => none

def stepBetween (reader : Reader) (c : Char) : Option Reader :=
  if c = ' ' ∨ c = '\t' ∨ c = '\n' ∨ c = '\r' then some reader
  else match c with
    | '\x7b' => reader.openCollection (.object [] "") .firstKey
    | '[' => reader.openCollection (.list []) .firstItem
    | '\x7d' => reader.closeObject
    | ']' => reader.closeList
    | ',' => reader.comma
    | ':' => if reader.expecting = .colon then some { reader with expecting := .value } else none
    | '"' => some { reader with position := .inText [] none }
    | c =>
      if c = '-' ∨ c.isDigit then some { reader with position := .inNumber [c] }
      else if c.isLower then some { reader with position := .inWord [c] }
      else none

def isNumberChar (c : Char) : Bool :=
  c.isDigit || c == '+' || c == '-' || c == '.' || c == 'e' || c == 'E'

def exponentFits : List Char → Bool
  | [] => true
  | mark :: rest =>
    let digits := match rest with
      | '+' :: digits | '-' :: digits => digits
      | digits => digits
    (mark == 'e' || mark == 'E') && !digits.isEmpty && digits.all Char.isDigit

/-- A number has no needless zero in front, and digits on both sides of a point. -/
def numberFits (spelling : List Char) : Bool :=
  let unsigned := match spelling with
    | '-' :: rest => rest
    | rest => rest
  let whole := unsigned.takeWhile Char.isDigit
  let rest := unsigned.dropWhile Char.isDigit
  !whole.isEmpty && (whole.length == 1 || whole.head? != some '0')
    && match rest with
      | '.' :: places =>
        startsWithDigit places && exponentFits (places.dropWhile Char.isDigit)
      | rest => exponentFits rest
where
  startsWithDigit : List Char → Bool
    | c :: _ => c.isDigit
    | [] => false

def word? : String → Option JsonValue
  | "null" => some .null
  | "true" => some (.boolean true)
  | "false" => some (.boolean false)
  | _ => none

def endToken (reader : Reader) : Option Reader :=
  match reader.position with
  | .inNumber spelling =>
    if numberFits spelling.reverse then
      reader.takeValue (.number (String.ofList spelling.reverse))
    else none
  | .inWord letters => (word? (String.ofList letters.reverse)).bind reader.takeValue
  | _ => some reader

def replacement : Char := '\ufffd'

def settle (chars : List Char) (high : Option Nat) : List Char :=
  if high.isSome then replacement :: chars else chars

def escape? : Char → Option Char
  | '"' => some '"'
  | '\\' => some '\\'
  | '/' => some '/'
  | 'b' => some '\x08'
  | 'f' => some '\x0c'
  | 'n' => some '\n'
  | 'r' => some '\r'
  | 't' => some '\t'
  | _ => none

/-- Takes a code of four digits, which may be half of a pair. -/
def takeCode (chars : List Char) (high : Option Nat) (code : Nat) : Position :=
  match high with
  | some first =>
    if 0xDC00 ≤ code ∧ code < 0xE000 then
      .inText (Char.ofNat (0x10000 + (first - 0xD800) * 0x400 + (code - 0xDC00)) :: chars) none
    else if 0xD800 ≤ code ∧ code < 0xDC00 then .inText (replacement :: chars) (some code)
    else .inText (Char.ofNat code :: replacement :: chars) none
  | none =>
    if 0xD800 ≤ code ∧ code < 0xDC00 then .inText chars (some code)
    else if 0xDC00 ≤ code ∧ code < 0xE000 then .inText (replacement :: chars) none
    else .inText (Char.ofNat code :: chars) none

def step (reader : Reader) (c : Char) : Option Reader :=
  match reader.position with
  | .between => reader.stepBetween c
  | .inNumber spelling =>
    if isNumberChar c then some { reader with position := .inNumber (c :: spelling) }
    else reader.endToken.bind fun reader => reader.stepBetween c
  | .inWord letters =>
    if c.isLower then some { reader with position := .inWord (c :: letters) }
    else reader.endToken.bind fun reader => reader.stepBetween c
  | .inText chars high =>
    if c = '"' then reader.takeText (String.ofList (settle chars high).reverse)
    else if c = '\\' then some { reader with position := .afterBackslash chars high }
    else if c.toNat < 0x20 then none
    else some { reader with position := .inText (c :: settle chars high) none }
  | .afterBackslash chars high =>
    if c = 'u' then some { reader with position := .inCode chars high 0 0 }
    else (escape? c).map fun c =>
      { reader with position := .inText (c :: settle chars high) none }
  | .inCode chars high digits value =>
    (Number.digitIn? 16 c).map fun digit =>
      let value := value * 16 + digit
      let position := if digits = 3 then takeCode chars high value
        else .inCode chars high (digits + 1) value
      { reader with position }

def finish (reader : Reader) : Option JsonValue :=
  match reader.position with
  | .between => reader.result
  | .inNumber _ | .inWord _ => reader.endToken.bind Reader.result
  | _ => none

end Reader

def read? (text : String) : Option JsonValue :=
  (text.toList.foldlM Reader.step Reader.start).bind Reader.finish

def numberValue? (spelling : String) : Option Float := Number.float? spelling.toList

def last? (fields : List (String × JsonValue)) (key : String) : Option JsonValue :=
  fields.reverse.lookup key

end JsonValue
end Sapling
