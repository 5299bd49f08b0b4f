import Sapling.Diagnostic

/-!
# Trace events

What a run reports while it goes on: its start and end, and those of every statement and call.
-/

set_option autoImplicit false

namespace Sapling

inductive TraceStep
  | runStart
  | runEnd (error : Option String)
  | statementStart (index : Nat) (kind : String)
  | statementEnd (index : Nat)
  | callStart (name : String) (args depth : Nat)
  | callEnd (name : String) (error : Option String)
  deriving DecidableEq, Repr

structure TraceEvent where
  runId : String
  span : Option Span
  step : TraceStep
  deriving DecidableEq, Repr

namespace TraceStep

def label : TraceStep → String
  | runStart => "run_start"
  | runEnd _ => "run_end"
  | statementStart .. => "stmt_start"
  | statementEnd _ => "stmt_end"
  | callStart .. => "fn_call_start"
  | callEnd .. => "fn_call_end"

inductive Datum
  | text (value : String)
  | count (value : Nat)
  deriving DecidableEq, Repr

def Datum.json : Datum → String
  | text value => Text.json value
  | count value => toString value

def errorField : Option String → List (String × Datum)
  | none => []
  | some message => [("error", .text message)]

/-- The data of an event, by increasing key. -/
def data : TraceStep → List (String × Datum)
  | runStart => []
  | runEnd error => errorField error
  | statementStart index kind => [("index", .count index), ("kind", .text kind)]
  | statementEnd index => [("index", .count index)]
  | callStart name args depth =>
    [("args", .count args), ("depth", .count depth), ("fn", .text name)]
  | callEnd name error => errorField error ++ [("fn", .text name)]

end TraceStep

structure StampedEvent where
  time : String
  event : TraceEvent
  deriving DecidableEq, Repr

def TraceEvent.json (event : TraceEvent) (time : String) : String :=
  Text.jsonObject ([("ts", Text.json time), ("runId", Text.json event.runId),
      ("event", Text.json event.step.label)]
    ++ (event.span.map fun span => ("span", span.json)).toList
    ++ (match event.step.data with
      | [] => []
      | data => [("data", Text.jsonObject (data.map fun (key, datum) => (key, datum.json)))]))

def StampedEvent.json (stamped : StampedEvent) : String := stamped.event.json stamped.time

end Sapling
