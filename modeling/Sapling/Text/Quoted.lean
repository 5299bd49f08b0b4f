import Sapling.Text.Printable

/-!
# Quoted texts

Two ways to put a text in quotes: for messages, where everything that would not show is escaped,
and for JSON, where the characters with a meaning in markup are escaped as well.
-/

set_option autoImplicit false

namespace Sapling.Text

def hex (width value : Nat) : String :=
  let digits := Nat.toDigits 16 value
  String.ofList (List.replicate (width - digits.length) '0' ++ digits)

def join (separator : String) (texts : List String) : String := separator.intercalate texts

def messageChar (c : Char) : String :=
  if c = '"' then "\\\""
  else if c = '\\' then "\\\\"
  else if isPrintable c then c.toString
  else match c with
    | '\x07' => "\\a"
    | '\x08' => "\\b"
    | '\x0c' => "\\f"
    | '\n' => "\\n"
    | '\r' => "\\r"
    | '\t' => "\\t"
    | '\x0b' => "\\v"
    | c =>
      if c.toNat < 0x80 then "\\x" ++ hex 2 c.toNat
      else if c.toNat < 0x10000 then "\\u" ++ hex 4 c.toNat
      else "\\U" ++ hex 8 c.toNat

def quoted (text : String) : String :=
  "\"" ++ text.foldl (fun done c => done ++ messageChar c) "" ++ "\""

def jsonChar (c : Char) : String :=
  match c with
  | '"' => "\\\""
  | '\\' => "\\\\"
  | '\x08' => "\\b"
  | '\x0c' => "\\f"
  | '\n' => "\\n"
  | '\r' => "\\r"
  | '\t' => "\\t"
  | c =>
    if c.toNat < 0x20 || c == '<' || c == '>' || c == '&' || c == '\u2028' || c == '\u2029' then
      "\\u" ++ hex 4 c.toNat
    else c.toString

def json (text : String) : String :=
  "\"" ++ text.foldl (fun done c => done ++ jsonChar c) "" ++ "\""

def jsonList (items : List String) : String := "[" ++ join "," items ++ "]"

/-- An object in JSON, of fields that are JSON already. -/
def jsonObject (fields : List (String × String)) : String :=
  "\x7b" ++ join "," (fields.map fun field => json field.1 ++ ":" ++ field.2) ++ "\x7d"

end Sapling.Text
