import Sapling.Cli
import Sapling.Proofs.Gathering
import Sapling.Proofs.JsonText
import Sapling.Proofs.Utf8

/-!
# The lines of a trace

Every event is written with its time on a line of its own and read back from it
(`TraceRecord.ofLine?_json`), as long as its counts are in the range of doubles.  So the records of
a trace with no line too long are those of its events (`TraceSummary.records_traceFile`).
-/

set_option autoImplicit false

namespace Sapling

/-! ## Lines -/

namespace Text

theorem linesFrom_line {line : List UInt8} (whole : lineFeed ∉ line) (rest : List UInt8) :
    ∀ (front : List UInt8) (done : List (List UInt8)),
      linesFrom (line ++ lineFeed :: rest) front done =
        linesFrom rest [] ((front.reverse ++ line) :: done) := by
  induction line with
  | nil =>
    intro front done
    simp [linesFrom]
  | cons byte line ih =>
    intro front done
    obtain ⟨other, others⟩ := List.ne_and_not_mem_of_not_mem_cons whole
    rw [List.cons_append, linesFrom, if_neg (Ne.symm other), ih others]
    simp

theorem lines_flatMap {lines : List (List UInt8)} (whole : ∀ line ∈ lines, lineFeed ∉ line) :
    Text.lines (lines.flatMap fun line => line ++ [lineFeed]) = lines := by
  have all : ∀ done, linesFrom (lines.flatMap fun line => line ++ [lineFeed]) [] done =
      done.reverse ++ lines := by
    induction lines with
    | nil => simp [linesFrom]
    | cons line rest ih =>
      intro done
      obtain ⟨first, others⟩ := List.forall_mem_cons.mp whole
      rw [List.flatMap_cons, List.append_assoc, List.singleton_append, linesFrom_line first,
        ih others]
      simp
  exact all []

theorem toBytes_newline : toBytes "\n" = [lineFeed] := by
  rw [toBytes_eq_flatMap]
  decide

theorem toBytes_join (texts : List String) :
    toBytes (String.join texts) = texts.flatMap toBytes := by
  rw [toBytes_eq_flatMap, String.toList_join, List.flatMap_assoc]
  exact List.flatMap_congr fun text _ => (toBytes_eq_flatMap text).symm

theorem lineFeed_not_mem {text : String} (plain : JsonValue.Plain text.toList) :
    lineFeed ∉ toBytes text := by
  rw [toBytes_eq_flatMap]
  intro member
  obtain ⟨c, isIn, member⟩ := List.mem_flatMap.mp member
  have large := le_of_mem_utf8EncodeChar (plain c isIn) member
  exact absurd large (by decide)

theorem trim_eq_self {text : String} {first last : Char} {middle : List Char}
    (spelled : text.toList = first :: (middle ++ [last])) (start : isSpace first = false)
    (stop : isSpace last = false) : trim text = text := by
  have kept : (first :: (middle ++ [last])).dropWhile isSpace = first :: (middle ++ [last]) := by
    rw [List.dropWhile_cons, start]
    rfl
  have reversed : (first :: (middle ++ [last])).reverse = last :: (middle.reverse ++ [first]) := by
    simp
  rw [trim, spelled, kept, reversed, List.dropWhile_cons, stop]
  simp [← spelled]

end Text

/-! ## Events -/

def TraceStep.Datum.value : TraceStep.Datum → JsonValue
  | text value => .text value
  | count value => .number (toString value)

def Span.value (span : Span) : JsonValue :=
  .object [("file", .text span.file), ("startLine", .number (toString span.line)),
    ("startCol", .number (toString span.column))]

namespace TraceEvent

def record (event : TraceEvent) (time : String) : TraceRecord :=
  ⟨event.step.label, event.runId, time, event.step.data.map fun field => (field.1, field.2.value)⟩

def entries (event : TraceEvent) (time : String) : List (String × String × JsonValue) :=
  [("ts", Text.json time, .text time), ("runId", Text.json event.runId, .text event.runId),
      ("event", Text.json event.step.label, .text event.step.label)]
    ++ (event.span.map fun span => ("span", span.json, span.value)).toList
    ++ (match event.step.data with
      | [] => []
      | data => [("data", Text.jsonObject (data.map fun field => (field.1, field.2.json)),
          .object (data.map fun field => (field.1, field.2.value)))])

theorem json_eq (event : TraceEvent) (time : String) :
    event.json time =
      Text.jsonObject ((event.entries time).map fun entry => (entry.1, entry.2.1)) := by
  unfold json entries
  cases event.span <;> cases event.step.data <;> rfl

end TraceEvent

open JsonValue (Spelled)

theorem TraceStep.Datum.spelled (datum : TraceStep.Datum) : Spelled 0 datum.json datum.value := by
  cases datum with
  | text value => exact .text 0 value
  | count value => exact JsonValue.spelled_nat 0 value

theorem Span.spelled (span : Span) : Spelled 1 span.json span.value := by
  refine .object [("file", Text.json span.file, .text span.file),
    ("startLine", toString span.line, .number (toString span.line)),
    ("startCol", toString span.column, .number (toString span.column))] ?_
  simp only [List.forall_mem_cons, List.not_mem_nil, false_implies, implies_true, and_true]
  exact ⟨.text 0 span.file, JsonValue.spelled_int 0 span.line, JsonValue.spelled_int 0 span.column⟩

theorem TraceStep.spelled_data (data : List (String × TraceStep.Datum)) :
    Spelled 1 (Text.jsonObject (data.map fun field => (field.1, field.2.json)))
      (.object (data.map fun field => (field.1, field.2.value))) := by
  have spelled : Spelled 1 _ _ :=
    .object (data.map fun field => (field.1, field.2.json, field.2.value)) (List.forall_mem_map.mpr
      fun field _ => field.2.spelled)
  rwa [List.map_map, List.map_map] at spelled

namespace TraceEvent

theorem entries_spelled (event : TraceEvent) (time : String) :
    ∀ entry ∈ event.entries time, Spelled 1 entry.2.1 entry.2.2 := by
  intro entry isIn
  rw [entries, List.mem_append, List.mem_append, Option.mem_toList] at isIn
  rcases isIn with (known | place) | data
  · simp only [List.mem_cons, List.not_mem_nil, or_false] at known
    rcases known with rfl | rfl | rfl
    all_goals exact .text 1 _
  · obtain ⟨span, _, rfl⟩ := Option.map_eq_some_iff.mp place
    exact span.spelled
  · split at data
    · exact absurd data List.not_mem_nil
    · rw [List.mem_singleton.mp data]
      exact TraceStep.spelled_data _

theorem read?_json (event : TraceEvent) (time : String) :
    JsonValue.read? (event.json time) =
      some (.object ((event.entries time).map fun entry => (entry.1, entry.2.2))) := by
  rw [json_eq]
  exact Spelled.read? (event.entries_spelled time) (by decide)

theorem plain_json (event : TraceEvent) (time : String) :
    JsonValue.Plain (event.json time).toList := by
  rw [json_eq]
  exact (Spelled.object _ (event.entries_spelled time)).plain

theorem three_le_length_json (event : TraceEvent) (time : String) :
    3 ≤ (event.json time).length := by
  have comma (first second : String × String) (rest : List (String × String)) :
      3 ≤ (Text.jsonObject (first :: second :: rest)).toList.length := by
    rw [JsonValue.Reader.toList_jsonObject, List.map_cons, List.map_cons, Text.join,
      String.intercalate_cons_cons, String.toList_append, String.toList_append]
    simp only [List.length_cons, List.length_append, List.length_nil]
    have : (",".toList).length = 1 := rfl
    omega
  rw [← String.length_toList, json_eq]
  exact comma _ _ _

end TraceEvent

theorem TraceStep.length_data_le (step : TraceStep) : step.data.length ≤ 3 := by
  cases step with
  | runEnd error => cases error <;> simp [data, errorField]
  | callEnd name error => cases error <;> simp [data, errorField]
  | _ => simp [data]

/-- Counts are small enough to be read as doubles. -/
def TraceStep.Datum.Fits : TraceStep.Datum → Prop
  | text _ => True
  | count value => value < 2 ^ 128

namespace TraceRecord

theorem inRange_values {data : List (String × TraceStep.Datum)}
    (fits : ∀ field ∈ data, field.2.Fits) : ∀ {size : Nat}, data.length ≤ size →
      inRange size (data.map fun field => field.2.value) = true := by
  induction data with
  | nil =>
    intro size _
    cases size <;> rfl
  | cons field rest ih =>
    intro size enough
    obtain ⟨first, others⟩ := List.forall_mem_cons.mp fits
    obtain ⟨size, rfl⟩ := Nat.exists_eq_succ_of_ne_zero (Nat.ne_of_gt (Nat.lt_of_lt_of_le
      (Nat.succ_pos _) enough))
    have more := ih others (Nat.le_of_succ_le_succ enough)
    obtain ⟨key, datum⟩ := field
    cases datum with
    | text value => exact more
    | count value =>
      have near := Number.float?_whole first
      simp only [List.map_cons, TraceStep.Datum.value, inRange, JsonValue.numberValue?, near,
        Option.isSome_some, Bool.true_and]
      exact more

theorem inRange_data {data : List (String × TraceStep.Datum)}
    (fits : ∀ field ∈ data, field.2.Fits) {size : Nat} (enough : data.length < size) :
    inRange size [.object (data.map fun field => (field.1, field.2.value))] = true := by
  obtain ⟨size, rfl⟩ := Nat.exists_eq_succ_of_ne_zero (Nat.ne_of_gt (Nat.lt_of_le_of_lt
    (Nat.zero_le _) enough))
  rw [inRange, List.append_nil, List.map_map]
  exact inRange_values fits (Nat.le_of_lt_succ enough)

theorem takeField_data {size : Nat} (record : TraceRecord) {fields : List (String × JsonValue)}
    (near : inRange size [.object fields] = true) :
    takeField size record ("data", .object fields) =
      some { record with data := record.data ++ fields } :=
  if_pos near

theorem foldlM_entries {event : TraceEvent} (fits : ∀ field ∈ event.step.data, field.2.Fits)
    (time : String) {size : Nat} (enough : event.step.data.length < size) :
    ((event.entries time).map fun entry => (entry.1, entry.2.2)).foldlM (takeField size) empty =
      some (event.record time) := by
  have texts : [("ts", JsonValue.text time), ("runId", .text event.runId),
      ("event", .text event.step.label)].foldlM (takeField size) empty =
        some ⟨event.step.label, event.runId, time, []⟩ := rfl
  have near := inRange_data fits enough
  have fields : ((event.entries time).map fun entry => (entry.1, entry.2.2)) =
      [("ts", JsonValue.text time), ("runId", .text event.runId),
          ("event", .text event.step.label)]
        ++ (event.span.map fun span => ("span", span.value)).toList
        ++ (match event.step.data with
          | [] => []
          | data => [("data", .object (data.map fun field => (field.1, field.2.value)))]) := by
    unfold TraceEvent.entries
    cases event.span <;> cases event.step.data <;> rfl
  have places : (event.span.map fun span => ("span", span.value)).toList.foldlM (takeField size)
      ⟨event.step.label, event.runId, time, []⟩ =
        some ⟨event.step.label, event.runId, time, []⟩ := by
    cases event.span <;> rfl
  rw [fields, List.foldlM_append, List.foldlM_append, texts, Option.bind_eq_bind, Option.bind_some,
    places, Option.bind_some]
  unfold TraceEvent.record
  cases data : event.step.data with
  | nil => rfl
  | cons field rest =>
    rw [data] at near
    show (takeField size _ ("data", _)).bind _ = _
    rw [takeField_data _ near]
    rfl

/-- An event is read back from its line. -/
theorem ofLine?_json {event : TraceEvent} (fits : ∀ field ∈ event.step.data, field.2.Fits)
    (time : String) :
    ofLine? (Text.dropReturn (Text.toBytes (event.json time))) = some (event.record time) := by
  have spelled := JsonValue.Reader.toList_jsonObject
    ((event.entries time).map fun entry => (entry.1, entry.2.1))
  rw [← event.json_eq time] at spelled
  have kept :
      Text.dropReturn (Text.toBytes (event.json time)) = Text.toBytes (event.json time) := by
    have last : (Text.toBytes (event.json time)).getLast? = some 0x7d := by
      rw [Text.toBytes_eq_flatMap, spelled, List.flatMap_cons, List.flatMap_append,
        ← List.append_assoc]
      exact List.getLast?_concat
    rw [Text.dropReturn, last]
    rfl
  have filled : (event.json time).isEmpty = false := by
    rw [String.isEmpty_eq_false_iff]
    intro empty
    rw [empty] at spelled
    cases spelled
  have few : event.step.data.length < (event.json time).length + 1 := by
    have room := event.three_le_length_json time
    have data := event.step.length_data_le
    omega
  have trimmed : Text.trim (event.json time) = event.json time :=
    Text.trim_eq_self spelled (by decide) (by decide)
  rw [kept, ofLine?, Text.ofBytes_toBytes, trimmed]
  simp only [filled, Bool.false_eq_true, if_false, event.read?_json time]
  exact foldlM_entries fits time few

end TraceRecord

def StampedEvent.record (stamped : StampedEvent) : TraceRecord := stamped.event.record stamped.time

theorem TraceSummary.lines_traceFile (events : List StampedEvent) :
    Text.lines (Cli.traceFile events) = events.map fun stamped => Text.toBytes stamped.json := by
  have file : Cli.traceFile events =
      (events.map fun stamped => Text.toBytes stamped.json).flatMap
        fun line => line ++ [Text.lineFeed] := by
    rw [Cli.traceFile, Text.toBytes_join, List.flatMap_map, List.flatMap_map]
    refine List.flatMap_congr fun stamped _ => ?_
    rw [Text.toBytes_append, Text.toBytes_newline]
  rw [file]
  exact Text.lines_flatMap (List.forall_mem_map.mpr fun stamped _ =>
    Text.lineFeed_not_mem (stamped.event.plain_json stamped.time))

theorem TraceSummary.records_traceFile {events : List StampedEvent}
    (fits : ∀ stamped ∈ events, ∀ field ∈ stamped.event.step.data, field.2.Fits)
    (short : ∀ stamped ∈ events, (Text.toBytes stamped.json).length < lineLimit) :
    records (Cli.traceFile events) = events.map StampedEvent.record := by
  have whole : (events.map fun stamped => Text.toBytes stamped.json).takeWhile
      (fun line => line.length < lineLimit) =
        events.map fun stamped => Text.toBytes stamped.json :=
    List.takeWhile_eq_self_iff.mpr (List.forall_mem_map.mpr fun stamped isIn => by
      simpa using short stamped isIn)
  rw [records, lines_traceFile, whole, List.filterMap_map, ← List.filterMap_eq_map]
  refine List.filterMap_congr fun stamped isIn => ?_
  rw [Function.comp_apply, Function.comp_apply, StampedEvent.json,
    TraceRecord.ofLine?_json (fits stamped isIn) stamped.time]
  rfl

end Sapling
