import Sapling.Expr
import Sapling.Text.Quoted

/-!
# Diagnostics

What reading, checking and running report: a code, a message, and where known a place and a hint.
They are shown as JSON, or for people.
-/

set_option autoImplicit false

namespace Sapling

inductive Code
  | ast
  | type
  | undefined
  | emptyBody
  | stackOverflow
  | duplicateParam
  | bodyScope
  | config
  | files
  deriving DecidableEq, Repr

def Code.text : Code → String
  | ast => "E_AST"
  | type => "E_TYPE"
  | undefined => "E_UNDEFINED"
  | emptyBody => "E_EMPTY_BODY"
  | stackOverflow => "E_STACK_OVERFLOW"
  | duplicateParam => "E_DUP_PARAM"
  | bodyScope => "E_BODY_SCOPE"
  | config => "E_CONFIG"
  | files => "E_IO"

/-- A diagnostic.  Code and severity are open texts, since diagnostics may be made by hand; no
severity means an error. -/
structure Diagnostic where
  code : String
  message : String
  span : Option Span
  hint : String
  severity : String
  deriving DecidableEq, Repr, Inhabited

namespace Diagnostic

def error (code : Code) (message : String) (span : Option Span) : Diagnostic :=
  ⟨code.text, message, span, "", ""⟩

def warning (code : Code) (message : String) (span : Option Span) : Diagnostic :=
  ⟨code.text, message, span, "", "warning"⟩

def withHint (d : Diagnostic) (hint : String) : Diagnostic := { d with hint }

def isError (d : Diagnostic) : Bool := d.severity == "" || d.severity == "error"

def hasErrors (diagnostics : List Diagnostic) : Bool := diagnostics.any isError

end Diagnostic

open Text

def Span.json (span : Span) : String :=
  jsonObject [("file", Text.json span.file), ("startLine", toString span.line),
    ("startCol", toString span.column)]

namespace Diagnostic

def jsonWith (d : Diagnostic) (message : String) : String :=
  jsonObject ([("code", Text.json d.code), ("message", message)]
    ++ (d.span.map fun span => ("span", span.json)).toList
    ++ (if d.hint.isEmpty then [] else [("hint", Text.json d.hint)])
    ++ (if d.severity.isEmpty then [] else [("severity", Text.json d.severity)]))

def json (d : Diagnostic) : String := d.jsonWith (Text.json d.message)

def pretty (d : Diagnostic) : String :=
  let place := match d.span.bind Span.known? with
    | some span => span.file ++ ":" ++ toString span.line ++ ":" ++ toString span.column
    | none => "<unknown>"
  let label := if d.isError then "error" else d.severity
  label ++ "[" ++ d.code ++ "]: " ++ d.message ++ "\n  --> " ++ place
    ++ (if d.hint.isEmpty then "" else "\n  hint: " ++ d.hint)

def renderAll (diagnostics : List Diagnostic) (forPeople : Bool) : String :=
  if forPeople then join "\n\n" (diagnostics.map pretty) else jsonList (diagnostics.map json)

end Diagnostic
end Sapling
