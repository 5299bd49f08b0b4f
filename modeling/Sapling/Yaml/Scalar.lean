import Sapling.Moment
import Sapling.Number.Spelling
import Sapling.Yaml.Node

/-!
# The values of scalars

What a scalar without quotes stands for: nothing, a truth value, a number, a point in time, or
its own text.  A tag that was written down has to agree with what the text spells.
-/

set_option autoImplicit false

namespace Sapling.Yaml

open Number (digitsIn? signed float?)

inductive Scalar
  | null
  | boolean (value : Bool)
  | integer (value : Int)
  | float (value : Float)
  | timestamp
  | text (value : String)

def Scalar.tag : Scalar → String
  | null => "!!null"
  | boolean _ => "!!bool"
  | integer _ => "!!int"
  | float _ => "!!float"
  | timestamp => "!!timestamp"
  | text _ => "!!str"

/-! ## Whole numbers -/

def basedDigits? : List Char → Option Nat
  | [] => none
  | '0' :: b :: c :: rest =>
    if b = 'b' ∨ b = 'B' then digitsIn? 2 (c :: rest)
    else if b = 'o' ∨ b = 'O' then digitsIn? 8 (c :: rest)
    else if b = 'x' ∨ b = 'X' then digitsIn? 16 (c :: rest)
    else digitsIn? 8 (b :: c :: rest)
  | '0' :: rest => digitsIn? 8 rest
  | digits => digitsIn? 10 digits

def fitting? (negative : Bool) (value : Nat) : Option Int :=
  if negative then (if value ≤ Number.wordHalf then some (-(value : Int)) else none)
  else if value < Number.wordHalf then some value
  else none

/-- A whole number in the base its start names; without a sign it may take all 64 bits. -/
def basedInteger? (text : List Char) : Option Int :=
  let (negative, digits) := signed text
  match basedDigits? digits >>= fitting? negative with
  | some value => some value
  | none =>
    (basedDigits? text).bind fun value => if value < Number.wordSize then some value else none

def markedInteger? (base : Nat) (text : List Char) : Option Int :=
  let number? (digits : List Char) := if digits.isEmpty then none else digitsIn? base digits
  let (negative, digits) := signed text
  match number? digits >>= fitting? negative with
  | some value => some value
  | none => (number? text).bind fun value => if value < Number.wordSize then some value else none

def oddInteger? (text : List Char) : Option Int :=
  let negated (base : Nat) (rest : List Char) :=
    if rest.isEmpty then none else digitsIn? base rest >>= fitting? true
  match text with
  | '0' :: 'b' :: rest => markedInteger? 2 rest
  | '-' :: '0' :: 'b' :: rest => negated 2 rest
  | '0' :: 'o' :: rest => markedInteger? 8 rest
  | '-' :: '0' :: 'o' :: rest => negated 8 rest
  | _ => none

def separated : (afterDigit : Bool) → List Char → Bool
  | _, [] => true
  | afterDigit, '_' :: rest =>
    afterDigit && (match rest with
      | c :: _ => c.isDigit
      | [] => false) && separated false rest
  | _, c :: rest => separated c.isDigit rest

/-! ## Timestamps -/

def timestampForms : List MomentForm :=
  [⟨true, some 'T', true⟩, ⟨true, some 't', true⟩, ⟨true, some ' ', false⟩, ⟨true, none, false⟩]

def isTimestamp (text : String) : Bool :=
  let chars := text.toList
  chars.takeWhile Char.isDigit |>.length |> fun digits =>
    digits == 4 && (chars.drop 4).head? == some '-'
      && timestampForms.any fun form => (form.read chars).isSome

/-! ## Resolution -/

def specialFloat? (text : String) : Option Float :=
  if text ∈ [".nan", ".NaN", ".NAN"] then some (0.0 / 0.0)
  else if text ∈ [".inf", ".Inf", ".INF", "+.inf", "+.Inf", "+.INF"] then some (1.0 / 0.0)
  else if text ∈ ["-.inf", "-.Inf", "-.INF"] then some (-1.0 / 0.0)
  else none

/-- The truth value of an older word for one.  Such a word stands for its text, unless a truth value
is wanted. -/
def olderTruth? (text : String) : Option Bool :=
  if text ∈ ["y", "Y", "yes", "Yes", "YES", "on", "On", "ON"] then some true
  else if text ∈ ["n", "N", "no", "No", "NO", "off", "Off", "OFF"] then some false
  else none

def numeric (timed : Bool) (text : String) : Scalar :=
  if timed && isTimestamp text then .timestamp
  else
    let plain := text.toList.filter (· != '_')
    match basedInteger? plain with
    | some value => .integer value
    | none =>
      match float? plain with
      | some value => .float value
      | none =>
        match oddInteger? plain with
        | some value => .integer value
        | none => .text text

def Scalar.ofText (timed : Bool) (text : String) : Scalar :=
  if text ∈ ["", "~", "null", "Null", "NULL"] then .null
  else if text ∈ ["true", "True", "TRUE"] then .boolean true
  else if text ∈ ["false", "False", "FALSE"] then .boolean false
  else match specialFloat? text with
    | some value => .float value
    | none =>
      match text.toList with
      | [] => .null
      | c :: rest =>
        if c = '.' then
          if separated false (c :: rest) then
            match float? ((c :: rest).filter (· != '_')) with
            | some value => .float value
            | none => .text text
          else .text text
        else if c.isDigit || c == '+' || c == '-' then numeric timed text
        else .text text

def plainTag (text : String) : String :=
  if text = "<<" then "!!merge" else (Scalar.ofText true text).tag

def valueTags : List String := ["", "!!bool", "!!int", "!!float", "!!null", "!!timestamp"]

/-- The value of a scalar with the given tag.  Under a tag that says nothing of its value it is its
text; a whole number also fits a float, if it has a sign bit. -/
def Scalar.resolve (tag text : String) : Except Error Scalar :=
  let tag := shortTag tag
  if !valueTags.contains tag then .ok (.text text)
  else
    let found := Scalar.ofText (tag.isEmpty || tag == "!!timestamp") text
    if tag.isEmpty || tag == found.tag then .ok found
    else match tag, found with
      | "!!float", .integer value =>
        if value < Number.wordHalf then .ok (.float (Number.ofInt value))
        else .error (.mistagged found.tag text tag)
      | _, _ => .error (.mistagged found.tag text tag)

def Document.read (input : Input) : Except Error (Option Document) :=
  Document.ofEvents plainTag (Events.ofInput input)

/-! ## Libraries -/

/-- What reads documents: the first one in the bytes, if there is one, and the value of a scalar
with its tag.  In place of bytes stands the reason why they could not be read. -/
class Library where
  parse : Except String (List UInt8) → Except Error (Option Document)
  resolve : (tag text : String) → Except Error Scalar

instance : Library where
  parse
    | .ok bytes => Document.read (Input.ofBytes bytes)
    | .error reason => Document.read ⟨[], [], some (.device reason)⟩
  resolve := Scalar.resolve

end Sapling.Yaml
