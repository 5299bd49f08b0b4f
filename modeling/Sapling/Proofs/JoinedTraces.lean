import Sapling.Proofs.Gathering
import Mathlib.Data.List.TakeWhile

/-!
# Traces one after another

A trace may be continued by another one behind a line break.  The events that are read of the whole
are those of the two parts (`TraceSummary.records_joined`), whatever stands at the seam.  All that a
summary says of its events goes from the parts to the whole in its own way, so the summary of the
whole follows from those of the parts, and lines that hold no event leave no mark.
-/

set_option autoImplicit false

namespace Sapling

/-! ## Lines of joined texts -/

namespace Text

theorem linesFrom_done (bytes : List UInt8) : ∀ (line : List UInt8) (done : List (List UInt8)),
    linesFrom bytes line done = done.reverse ++ linesFrom bytes line [] := by
  induction bytes with
  | nil =>
    intro line done
    by_cases empty : line.isEmpty <;> simp [linesFrom, empty]
  | cons byte rest ih =>
    intro line done
    by_cases ends : byte = lineFeed
    · rw [linesFrom, linesFrom, if_pos ends, if_pos ends, ih _ (line.reverse :: done),
        ih _ [line.reverse]]
      simp
    · rw [linesFrom, linesFrom, if_neg ends, if_neg ends, ih _ done]

/-- Where the first text ends with a line break, or is empty, an empty line stands at the seam. -/
theorem lines_joined (first second : List UInt8) :
    ∃ seam : List (List UInt8), (∀ line ∈ seam, line = []) ∧
      lines (first ++ lineFeed :: second) = lines first ++ (seam ++ lines second) := by
  have goesOn : ∀ line : List UInt8, ∃ seam : List (List UInt8), (∀ other ∈ seam, other = []) ∧
      linesFrom (first ++ lineFeed :: second) line [] =
        linesFrom first line [] ++ (seam ++ lines second) := by
    induction first with
    | nil =>
      intro line
      have opened : linesFrom (lineFeed :: second) line [] = line.reverse :: lines second := by
        rw [linesFrom, if_pos rfl, linesFrom_done]
        rfl
      rw [List.nil_append, opened]
      by_cases empty : line = []
      · exact ⟨[[]], by simp, by simp [empty, linesFrom]⟩
      · exact ⟨[], by simp, by simp [empty, linesFrom]⟩
    | cons byte rest ih =>
      intro line
      by_cases ends : byte = lineFeed
      · obtain ⟨seam, blank, joined⟩ := ih []
        refine ⟨seam, blank, ?_⟩
        rw [List.cons_append, linesFrom, linesFrom, if_pos ends, if_pos ends,
          linesFrom_done (rest ++ _), linesFrom_done rest, joined]
        simp
      · obtain ⟨seam, blank, joined⟩ := ih (byte :: line)
        refine ⟨seam, blank, ?_⟩
        rw [List.cons_append, linesFrom, linesFrom, if_neg ends, if_neg ends, joined]
  exact goesOn []

end Text

namespace TraceSummary

/-! ## Joined traces -/

theorem ofBytes_congr {first second : List UInt8} (same : records first = records second) :
    ofBytes first = ofBytes second :=
  congrArg (List.foldl add empty) same

def IsShort (bytes : List UInt8) : Prop := ∀ line ∈ Text.lines bytes, line.length < lineLimit

/-- No line holds an event: each is blank, or is not read as one. -/
def IsNoise (bytes : List UInt8) : Prop :=
  ∀ line ∈ Text.lines bytes, Text.trim (Text.ofBytes (Text.dropReturn line)) = "" ∨
    TraceRecord.ofLine? (Text.dropReturn line) = none

theorem records_of_short {bytes : List UInt8} (short : IsShort bytes) :
    records bytes =
      (Text.lines bytes).filterMap fun line => TraceRecord.ofLine? (Text.dropReturn line) := by
  have all : (Text.lines bytes).takeWhile (fun line => line.length < lineLimit) =
      Text.lines bytes := by
    apply List.takeWhile_eq_self_iff.mpr
    intro line isLine
    simpa using short line isLine
  rw [records, all]

theorem ofLine?_blank {line : List UInt8} (blank : Text.trim (Text.ofBytes line) = "") :
    TraceRecord.ofLine? line = none := by
  simp [TraceRecord.ofLine?, blank]

theorem records_noise {bytes : List UInt8} (short : IsShort bytes) (noise : IsNoise bytes) :
    records bytes = [] := by
  rw [records_of_short short]
  apply List.filterMap_eq_nil_iff.mpr
  intro line isLine
  rcases noise line isLine with blank | unread
  · exact ofLine?_blank blank
  · exact unread

section Joined
variable {first second : List UInt8}

theorem IsShort.join (firstShort : IsShort first) (secondShort : IsShort second) :
    IsShort (first ++ Text.lineFeed :: second) := by
  obtain ⟨seam, blank, joined⟩ := Text.lines_joined first second
  intro line isLine
  rw [joined, List.mem_append, List.mem_append] at isLine
  rcases isLine with earlier | between | later
  · exact firstShort line earlier
  · rw [blank line between]
    decide
  · exact secondShort line later

theorem records_joined (firstShort : IsShort first) (secondShort : IsShort second) :
    records (first ++ Text.lineFeed :: second) = records first ++ records second := by
  obtain ⟨seam, blank, joined⟩ := Text.lines_joined first second
  have silent : seam.filterMap (fun line => TraceRecord.ofLine? (Text.dropReturn line)) = [] := by
    apply List.filterMap_eq_nil_iff.mpr
    intro line isSeam
    rw [blank line isSeam]
    exact ofLine?_blank (by decide +kernel)
  rw [records_of_short (firstShort.join secondShort), records_of_short firstShort,
    records_of_short secondShort, joined, List.filterMap_append, List.filterMap_append, silent,
    List.nil_append]

end Joined

def callsOf (summary : TraceSummary) (name : String) : Nat :=
  (summary.callsByName.lookup name).getD 0

theorem Gathers.callsOf {records : List TraceRecord} {summary : TraceSummary}
    (gathers : Gathers records summary) (name : String) :
    summary.callsOf name = (records.filterMap TraceRecord.called?).count name := by
  rw [TraceSummary.callsOf, gathers.byName.lookup]
  by_cases isCalled : name ∈ records.filterMap TraceRecord.called?
  · rw [if_pos isCalled, Option.getD_some]
  · rw [if_neg isCalled, List.count_eq_zero_of_not_mem isCalled, Option.getD_none]

/-- The summary is that of the second trace behind the first one. -/
structure Continues (first second : List UInt8) (whole : TraceSummary) : Prop where
  events : whole.events = (ofBytes first).events + (ofBytes second).events
  statements : whole.statements = (ofBytes first).statements + (ofBytes second).statements
  calls : whole.calls = (ofBytes first).calls + (ofBytes second).calls
  callsOf : ∀ name,
    whole.callsOf name = (ofBytes first).callsOf name + (ofBytes second).callsOf name
  listed : ∀ name, (whole.callsByName.lookup name).isSome ↔
    ((ofBytes first).callsByName.lookup name).isSome ∨
      ((ofBytes second).callsByName.lookup name).isSome
  maxDepth : whole.maxDepth = max (ofBytes first).maxDepth (ofBytes second).maxDepth
  runId : whole.runId =
    if (ofBytes first).runId = "" then (ofBytes second).runId else (ofBytes first).runId
  startTime : whole.startTime =
    if (ofBytes first).startTime = "" then (ofBytes second).startTime
    else (ofBytes first).startTime
  endTime : whole.endTime =
    if ∃ record ∈ records second, record.event = "run_end" then (ofBytes second).endTime
    else (ofBytes first).endTime
  /-- The last end of a run that comes with an error decides. -/
  error : whole.error =
    lastText ((records first ++ records second).filterMap TraceRecord.runError?)

theorem Gathers.continues {first second : List UInt8} {whole : TraceSummary}
    (gathers : Gathers (records first ++ records second) whole) : Continues first second whole := by
  have one := ofBytes_gathers first
  have two := ofBytes_gathers second
  constructor
  case events => rw [gathers.events, one.events, two.events, List.length_append]
  case statements =>
    rw [gathers.statements, one.statements, two.statements, List.countP_append]
  case calls =>
    rw [gathers.calls, one.calls, two.calls, List.filterMap_append, List.length_append]
  case callsOf =>
    intro name
    rw [gathers.callsOf, one.callsOf, two.callsOf, List.filterMap_append, List.count_append]
  case listed =>
    intro name
    rw [gathers.byName.lookup, one.byName.lookup, two.byName.lookup, List.filterMap_append]
    simp only [List.mem_append]
    by_cases earlier : name ∈ (records first).filterMap TraceRecord.called?
    · simp [earlier]
    · by_cases later : name ∈ (records second).filterMap TraceRecord.called? <;>
        simp [earlier, later]
  case maxDepth =>
    rw [gathers.maxDepth, one.maxDepth, two.maxDepth, List.filterMap_append, greatest_append]
  case runId =>
    rw [gathers.runId, one.runId, two.runId, List.map_append, firstText_append]
    simp only [String.isEmpty_iff]
  case startTime =>
    rw [gathers.startTime, one.startTime, two.startTime, List.filterMap_append, firstText_append]
    simp only [String.isEmpty_iff]
  case endTime =>
    have ended : (records second).filterMap TraceRecord.endTime? = [] ↔
        ¬ ∃ record ∈ records second, record.event = "run_end" := by
      simp [List.filterMap_eq_nil_iff, TraceRecord.endTime?]
    rw [gathers.endTime, one.endTime, two.endTime, List.filterMap_append, lastText_append]
    by_cases ends : ∃ record ∈ records second, record.event = "run_end"
    · rw [if_pos ends, if_neg (mt ended.mp (not_not_intro ends))]
    · rw [if_neg ends, if_pos (ended.mpr ends)]
  case error => exact gathers.error

theorem Gathers.few {records : List TraceRecord} {summary : TraceSummary}
    (gathers : Gathers records summary) : summary.statements + summary.calls ≤ summary.events := by
  have apart : records.countP (fun record => record.called?.isSome) ≤
      records.countP fun record => !record.isStatement := by
    apply List.countP_mono_left
    intro record _ calls
    have label : record.event = "fn_call_start" := by
      by_contra other
      simp [TraceRecord.called?, other] at calls
    simp [TraceRecord.isStatement, label]
  have all : records.length = records.countP TraceRecord.isStatement +
      records.countP fun record => !record.isStatement := by
    simpa using List.length_eq_countP_add_countP TraceRecord.isStatement (l := records)
  rw [gathers.statements, gathers.calls, gathers.events, List.length_filterMap_eq_countP, all]
  exact Nat.add_le_add_left apart _

/-- The summary of a trace behind another one follows from the summaries of the two, when no line is
too long.  Lines that hold no event change nothing, in front, behind or between.  In every summary
the calls by name add up to the calls, and no event is counted twice. -/
theorem joined_traces_summarised {first second : List UInt8} (firstShort : IsShort first)
    (secondShort : IsShort second) :
    Continues first second (ofBytes (first ++ Text.lineFeed :: second)) ∧
    (∀ noise, IsShort noise → IsNoise noise →
      ofBytes (noise ++ Text.lineFeed :: first) = ofBytes first ∧
      ofBytes (first ++ Text.lineFeed :: noise) = ofBytes first ∧
      ofBytes (first ++ Text.lineFeed :: (noise ++ Text.lineFeed :: second)) =
        ofBytes (first ++ Text.lineFeed :: second)) ∧
    ∀ bytes, ((ofBytes bytes).callsByName.map Prod.snd).sum = (ofBytes bytes).calls ∧
      (ofBytes bytes).statements + (ofBytes bytes).calls ≤ (ofBytes bytes).events := by
  refine ⟨?_, ?_, ?_⟩
  · have gathers := ofBytes_gathers (first ++ Text.lineFeed :: second)
    rw [records_joined firstShort secondShort] at gathers
    exact gathers.continues
  · intro noise short isNoise
    have nothing := records_noise short isNoise
    refine ⟨?_, ?_, ?_⟩
    · apply ofBytes_congr
      rw [records_joined short firstShort, nothing, List.nil_append]
    · apply ofBytes_congr
      rw [records_joined firstShort short, nothing, List.append_nil]
    · apply ofBytes_congr
      rw [records_joined firstShort (short.join secondShort), records_joined short secondShort,
        nothing, List.nil_append, records_joined firstShort secondShort]
  · intro bytes
    have gathers := ofBytes_gathers bytes
    exact ⟨gathers.byName.total.trans gathers.calls.symm, gathers.few⟩

def brokenOff : List UInt8 := Text.toBytes
  ("\x7b\"event\":\"fn_call_start\",\"runId\":\"a\","
    ++ "\"data\":\x7b\"fn\":\"f\",\"depth\":2\x7d\x7d\n")

def endsLate : List UInt8 := Text.toBytes
  "\x7b\"event\":\"run_end\",\"runId\":\"b\",\"ts\":\"t\",\"data\":\x7b\"error\":\"e\"\x7d\x7d"

def garbled : List UInt8 := Text.toBytes " \r\n\x7b\"event\":"

theorem joined_traces_summarised_brokenOff :
    (IsShort brokenOff ∧ IsShort endsLate ∧ IsShort garbled ∧ IsNoise garbled) ∧
      (let whole := ofBytes (brokenOff ++ Text.lineFeed :: endsLate)
      whole.events = 2 ∧ whole.calls = 1 ∧ whole.callsOf "f" = 1 ∧ whole.maxDepth = 2 ∧
        whole.runId = "a" ∧ whole.endTime = "t" ∧
        ofBytes (brokenOff ++ Text.lineFeed :: (garbled ++ Text.lineFeed :: endsLate)) =
          whole) := by
  have short : IsShort brokenOff ∧ IsShort endsLate ∧ IsShort garbled := by
    unfold IsShort
    decide +kernel
  have isNoise : IsNoise garbled := by
    intro line isLine
    have lines : Text.lines garbled = [[32, 13], Text.toBytes "\x7b\"event\":"] := by
      decide +kernel
    rw [lines, List.mem_cons, List.mem_singleton] at isLine
    rcases isLine with rfl | rfl
    · exact .inl (by decide +kernel)
    · exact .inr (by decide +kernel)
  have before : ofBytes brokenOff = ⟨"a", 1, 0, 1, [("f", 1)], 2, "", "", ""⟩ := by
    decide +kernel
  have after : ofBytes endsLate = ⟨"b", 1, 0, 0, [], 0, "e", "", "t"⟩ := by
    decide +kernel
  have ends : ∃ record ∈ records endsLate, record.event = "run_end" := by
    decide +kernel
  obtain ⟨joined, quiet, -⟩ := joined_traces_summarised short.1 short.2.1
  refine ⟨⟨short.1, short.2.1, short.2.2, isNoise⟩, ?_, ?_, ?_, ?_, ?_, ?_,
    (quiet garbled short.2.2 isNoise).2.2⟩
  · simp only [joined.events, before, after]
  · simp only [joined.calls, before, after]
  · simp only [joined.callsOf, before, after]
    decide
  · simp only [joined.maxDepth, before, after]
    decide
  · simp [joined.runId, before]
  · rw [joined.endTime, if_pos ends, after]

end TraceSummary
end Sapling
