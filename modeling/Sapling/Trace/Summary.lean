import Sapling.Moment
import Sapling.Number.Spelling
import Sapling.Text.Json
import Sapling.Text.Utf8
import Sapling.Trace.Event

/-!
# Summaries of traces

A trace is read line by line.  Lines that hold no event are passed over; reading ends at a line
that is too long.
-/

set_option autoImplicit false

namespace Sapling

/-- An event as it was read.  Only the text of its label counts. -/
structure TraceRecord where
  event : String
  runId : String
  time : String
  data : List (String × JsonValue)

namespace TraceRecord

def empty : TraceRecord := ⟨"", "", "", []⟩

def foldCase (c : Char) : Char :=
  if c = '\u017f' then 's' else if c = '\u212a' then 'k' else c.toLower

def isKey (key name : String) : Bool := key.toList.map foldCase == name.toList.map foldCase

def textField (value : JsonValue) (old : String) : Option String :=
  match value with
  | .text value => some value
  | .null => some old
  | _ => none

/-- Whether every number is one that a double can come near to; `pending` holds the values still to
be looked at. -/
def inRange : (fuel : Nat) → (pending : List JsonValue) → Bool
  | 0, pending => pending.isEmpty
  | _, [] => true
  | fuel + 1, value :: pending =>
    match value with
    | .number spelling =>
      (JsonValue.numberValue? spelling).isSome && inRange fuel pending
    | .list items => inRange fuel (items ++ pending)
    | .object fields => inRange fuel (fields.map (·.2) ++ pending)
    | _ => inRange fuel pending

def takeField (size : Nat) (record : TraceRecord) (field : String × JsonValue) :
    Option TraceRecord :=
  let (key, value) := field
  if isKey key "event" then
    (textField value record.event).map fun event => { record with event }
  else if isKey key "runId" then
    (textField value record.runId).map fun runId => { record with runId }
  else if isKey key "ts" then
    (textField value record.time).map fun time => { record with time }
  else if isKey key "data" then
    match value with
    | .object fields =>
      if inRange size [value] then some { record with data := record.data ++ fields } else none
    | .null => some { record with data := [] }
    | _ => none
  else some record

def ofLine? (line : List UInt8) : Option TraceRecord :=
  let text := Text.trim (Text.ofBytes line)
  if text.isEmpty then none
  else match JsonValue.read? text with
    | some .null => some empty
    | some (.object fields) => fields.foldlM (takeField (text.length + 1)) empty
    | _ => none

def textOf? (record : TraceRecord) (key : String) : Option String :=
  match JsonValue.last? record.data key with
  | some (.text value) => some value
  | _ => none

def countOf? (record : TraceRecord) (key : String) : Option Int :=
  match JsonValue.last? record.data key with
  | some (.number spelling) =>
    ((JsonValue.numberValue? spelling).bind Number.truncate?).filter Number.fitsWord
  | _ => none

end TraceRecord

structure TraceSummary where
  runId : String
  events : Nat
  statements : Nat
  calls : Nat
  callsByName : List (String × Nat)
  maxDepth : Int
  error : String
  startTime : String
  endTime : String
  deriving DecidableEq, Repr

namespace TraceSummary

def empty : TraceSummary := ⟨"", 0, 0, 0, [], 0, "", "", ""⟩

def countName (name : String) : List (String × Nat) → List (String × Nat)
  | [] => [(name, 1)]
  | (other, count) :: rest =>
    if name = other then (other, count + 1) :: rest
    else if name < other then (name, 1) :: (other, count) :: rest
    else (other, count) :: countName name rest

def anonymous : String := "<anonymous>"

def addCall (summary : TraceSummary) (record : TraceRecord) : TraceSummary :=
  let name := (record.textOf? "fn").getD ""
  let name := if name.isEmpty then anonymous else name
  let depth := (record.countOf? "depth").getD summary.maxDepth
  { summary with
    calls := summary.calls + 1
    callsByName := countName name summary.callsByName
    maxDepth := max summary.maxDepth depth }

/-- Adds an event: the first run names the run and its start, the last end and the last error
count. -/
def add (summary : TraceSummary) (record : TraceRecord) : TraceSummary :=
  let summary := { summary with
    events := summary.events + 1
    runId := if summary.runId.isEmpty then record.runId else summary.runId }
  if record.event = "run_start" then
    { summary with
      startTime := if summary.startTime.isEmpty then record.time else summary.startTime }
  else if record.event = "run_end" then
    { summary with
      endTime := record.time
      error := (record.textOf? "error").getD summary.error }
  else if record.event = "stmt_start" then { summary with statements := summary.statements + 1 }
  else if record.event = "fn_call_start" then summary.addCall record
  else summary

/-- The least length of a line, in bytes, that ends the reading. -/
def lineLimit : Nat := 65536

def ofBytes (bytes : List UInt8) : TraceSummary :=
  let lines := (Text.lines bytes).takeWhile fun line => line.length < lineLimit
  (lines.filterMap fun line => TraceRecord.ofLine? (Text.dropReturn line)).foldl add empty

/-! ## Duration -/

def timeForm : MomentForm := ⟨false, some 'T', true⟩

def instant? (time : String) : Option Int := (timeForm.read time.toList).map Moment.nanoseconds

def longest : Int := Number.wordHalf - 1

def microseconds (summary : TraceSummary) : Int :=
  match instant? summary.startTime, instant? summary.endTime with
  | some start, some stop => (max (-longest) (min longest (stop - start))).tdiv 1000
  | _, _ => 0

def milliseconds (summary : TraceSummary) : Float := Number.ofInt summary.microseconds / 1000

/-! ## Texts -/

def json (summary : TraceSummary) : String :=
  let unlessEmpty (key value : String) := if value.isEmpty then [] else [(key, Text.json value)]
  let names := summary.callsByName.map fun (name, count) => (name, toString count)
  Text.jsonObject ([("runId", Text.json summary.runId), ("totalEvents", toString summary.events),
      ("statements", toString summary.statements), ("fnCalls", toString summary.calls),
      ("callsByName", Text.jsonObject names), ("maxDepth", toString summary.maxDepth)]
    ++ unlessEmpty "error" summary.error
    ++ unlessEmpty "startTime" summary.startTime
    ++ unlessEmpty "endTime" summary.endTime
    ++ [("durationMs", Number.jsonText summary.milliseconds)])

def text (summary : TraceSummary) : String :=
  let names := summary.callsByName.map fun (name, count) =>
    "  " ++ name ++ ": " ++ toString count ++ "\n"
  "Run: " ++ summary.runId ++ "\n"
    ++ "Events: " ++ toString summary.events ++ "\n"
    ++ "Statements: " ++ toString summary.statements ++ "\n"
    ++ "Calls: " ++ toString summary.calls ++ " (max depth " ++ toString summary.maxDepth ++ ")\n"
    ++ String.join names
    ++ (if summary.error.isEmpty then "" else "Error: " ++ summary.error ++ "\n")
    ++ (if summary.milliseconds > 0 then
        "Duration: " ++ Number.fixedText 3 summary.milliseconds ++ "ms\n"
      else "")

end TraceSummary
end Sapling
