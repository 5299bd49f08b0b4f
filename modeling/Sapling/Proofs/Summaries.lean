import Sapling.Proofs.Accounts
import Sapling.Proofs.DocumentSize
import Sapling.Proofs.TraceLines

/-!
# Summaries of written traces

The summary of a trace that a run has written says what the run did: how many events there were, how
many statements and calls the statistics counted, how deep the calls were nested, which functions
were called how often, and how the run ended.

A summary gathers the records of a trace, each of which says what its event says, whatever the clock
showed then; and the events are what the statistics and the functions called account for.
-/

set_option autoImplicit false

namespace Sapling

/-! ## Events and their records -/

def TraceEvent.runError? (event : TraceEvent) : Option String :=
  match event.step with
  | .runEnd error => error
  | _ => none

namespace TraceEvent
variable (event : TraceEvent) (time : String)

theorem isStatement_record : (event.record time).isStatement = event.isStatementStart := by
  obtain ⟨run, span, step⟩ := event
  cases step <;> rfl

theorem called?_record :
    (event.record time).called? = event.called?.map TraceSummary.shown := by
  obtain ⟨run, span, step⟩ := event
  cases step <;> rfl

theorem runError?_record : (event.record time).runError? = event.runError? := by
  obtain ⟨run, span, step⟩ := event
  cases step with
  | runEnd error => cases error <;> rfl
  | _ => rfl

theorem countOf?_depth (run : String) (span : Option Span) (name : String) (args : Nat)
    (depth : Nat) (deep : depth ≤ depthCeiling) :
    (record ⟨run, span, .callStart name args depth⟩ time).countOf? "depth" =
      some (depth : Int) := by
  have small : depth < 2 * Magnitude.hidden := Nat.lt_of_le_of_lt deep (by decide)
  have fits : depth < 2 ^ 128 := Nat.lt_of_le_of_lt deep (by decide)
  have word : Number.fitsWord depth = true := by
    have least : -(Number.wordHalf : Int) ≤ depth := by omega
    have most : (depth : Int) < Number.wordHalf := by
      exact_mod_cast Nat.lt_of_le_of_lt deep (by decide)
    simp [Number.fitsWord, least, most]
  show ((JsonValue.numberValue? (toString depth)).bind Number.truncate?).filter Number.fitsWord = _
  rw [JsonValue.numberValue?, Number.float?_whole fits, Option.bind_some,
    Number.truncate?_whole small]
  simp [word]

theorem greatest_depth?_record (deep : event.depth ≤ depthCeiling) :
    TraceSummary.greatest (event.record time).depth?.toList = event.depth := by
  obtain ⟨run, span, step⟩ := event
  cases step with
  | callStart name args depth =>
    have read : (record ⟨run, span, .callStart name args depth⟩ time).depth? = some (depth : Int) :=
      countOf?_depth time run span name args depth deep
    rw [read]
    exact max_eq_right (Int.natCast_nonneg depth)
  | _ => rfl

end TraceEvent

namespace TraceSummary

section Records
variable (events : List StampedEvent)

theorem countP_isStatement_records :
    (events.map StampedEvent.record).countP TraceRecord.isStatement =
      (events.map StampedEvent.event).countP TraceEvent.isStatementStart := by
  rw [List.countP_map, List.countP_map]
  exact List.countP_congr fun stamped _ => by
    rw [Function.comp_apply, Function.comp_apply, StampedEvent.record,
      stamped.event.isStatement_record stamped.time]

theorem called_records :
    (events.map StampedEvent.record).filterMap TraceRecord.called? =
      ((events.map StampedEvent.event).filterMap TraceEvent.called?).map shown := by
  rw [List.filterMap_map, List.filterMap_map, List.map_filterMap]
  exact List.filterMap_congr fun stamped _ => stamped.event.called?_record stamped.time

theorem runErrors_records :
    (events.map StampedEvent.record).filterMap TraceRecord.runError? =
      (events.map StampedEvent.event).filterMap TraceEvent.runError? := by
  rw [List.filterMap_map, List.filterMap_map]
  exact List.filterMap_congr fun stamped _ => stamped.event.runError?_record stamped.time

theorem greatest_records (deep : ∀ stamped ∈ events, stamped.event.depth ≤ depthCeiling) :
    greatest ((events.map StampedEvent.record).filterMap TraceRecord.depth?) =
      (deepest (events.map StampedEvent.event) : Int) := by
  induction events with
  | nil => rfl
  | cons stamped rest ih =>
    obtain ⟨first, others⟩ := List.forall_mem_cons.mp deep
    have split (records : List TraceRecord) (record : TraceRecord) :
        (record :: records).filterMap TraceRecord.depth? =
          record.depth?.toList ++ records.filterMap TraceRecord.depth? := by
      cases found : record.depth? <;> simp [found]
    rw [List.map_cons, List.map_cons, split, greatest_append, ih others, StampedEvent.record,
      stamped.event.greatest_depth?_record stamped.time first, deepest_cons]
    omega

end Records

theorem firstText_eq {run : String} {texts : List String} (all : ∀ text ∈ texts, text = run)
    (filled : texts ≠ []) : firstText texts = run := by
  obtain ⟨text, rest, rfl⟩ := List.exists_cons_of_ne_nil filled
  obtain ⟨rfl, others⟩ := List.forall_mem_cons.mp all
  rw [← List.singleton_append, firstText_append, firstText_singleton]
  split
  · rename_i empty
    have none : rest.find? (!·.isEmpty) = none :=
      List.find?_eq_none.mpr fun other isIn => by simp [others other isIn, empty]
    rw [firstText, none, String.isEmpty_iff.mp empty]
    rfl
  · rfl

/-! ## Traces of runs -/

/-- The summary says what an execution did, in which these functions were called. -/
structure Summarises (run : String) (execution : Execution) (called : List Closure)
    (summary : TraceSummary) : Prop where
  events : summary.events = execution.events.length
  statements : summary.statements = execution.stats.statements
  calls : summary.calls = execution.stats.calls
  maxDepth : summary.maxDepth = (execution.stats.maxSeen : Int)
  byName : Tally (called.map fun closure => shown closure.name) summary.callsByName
  total : (summary.callsByName.map Prod.snd).sum = summary.calls
  runId : summary.runId = run
  error : summary.error = (execution.error.map EvalError.message).getD ""

end TraceSummary

theorem TraceEvent.depth_le_deepest {event : TraceEvent} {events : List TraceEvent}
    (isIn : event ∈ events) : event.depth ≤ deepest events := by
  induction events with
  | nil => exact absurd isIn List.not_mem_nil
  | cons first rest ih =>
    rw [deepest_cons]
    rcases List.mem_cons.mp isIn with rfl | later
    · exact Nat.le_max_left _ _
    · exact Nat.le_trans (ih later) (Nat.le_max_right _ _)

theorem TraceStep.errorField_fits (error : Option String) :
    ∀ field ∈ errorField error, field.2.Fits := by
  cases error with
  | none => exact nofun
  | some message => exact List.forall_mem_singleton.mpr trivial

theorem TraceEvent.fits {event : TraceEvent} {width : Nat} (few : width < 2 ^ 128)
    (within : event.step.Within width) (deep : event.depth ≤ depthCeiling) :
    ∀ field ∈ event.step.data, field.2.Fits := by
  obtain ⟨run, span, step⟩ := event
  cases step with
  | runStart => exact nofun
  | runEnd error => exact within.elim
  | statementStart index kind =>
    have small : index < 2 ^ 128 := Nat.lt_of_le_of_lt within few
    exact List.forall_mem_cons.mpr ⟨small, List.forall_mem_singleton.mpr trivial⟩
  | statementEnd index =>
    exact List.forall_mem_singleton.mpr (Nat.lt_of_le_of_lt within few)
  | callStart name args depth =>
    have small : args < 2 ^ 128 := Nat.lt_of_le_of_lt within few
    have shallow : depth < 2 ^ 128 := Nat.lt_of_le_of_lt deep (by decide)
    exact List.forall_mem_cons.mpr ⟨small,
      List.forall_mem_cons.mpr ⟨shallow, List.forall_mem_singleton.mpr trivial⟩⟩
  | callEnd name error =>
    exact List.forall_mem_append.mpr
      ⟨TraceStep.errorField_fits error, List.forall_mem_singleton.mpr trivial⟩

theorem TraceStep.Within.runError?_eq_none {event : TraceEvent} {width : Nat}
    (within : event.step.Within width) : event.runError? = none := by
  obtain ⟨run, span, step⟩ := event
  cases step with
  | runEnd error => exact within.elim
  | _ => rfl

section Written
variable [Yaml.Library] [Yaml.BoundsLists] {file : String} {bytes : List UInt8} {program : Program}
  (read : readProgram file bytes = .ok program) (held : bytes.length < Number.wordHalf)
include read held

theorem TraceSummary.stamped_traces_summarised (maxDepth : Int) (runId : String) (nextId : Nat)
    {stamped : List StampedEvent} :
    let settings : Settings := ⟨effectiveDepth maxDepth, true, runId⟩
    let execution := program.execute settings Scope.empty nextId
    stamped.map StampedEvent.event = execution.events →
    (∀ event ∈ stamped, (Text.toBytes event.json).length < lineLimit) →
      Summarises runId execution (program.called settings Scope.empty nextId)
        (ofBytes (Cli.traceFile stamped)) := by
  intro settings execution same short
  have ofStamped {p : TraceEvent → Prop} (each : ∀ event ∈ execution.events, p event) :
      ∀ event ∈ stamped, p event.event := fun event isIn =>
    each _ (same ▸ List.mem_map_of_mem isIn)
  -- the document bounds the lists of the program, and these bound the counts in the events
  obtain ⟨inner, split, within⟩ :=
    Program.execute_within (readProgram_narrow read held) (effectiveDepth maxDepth) runId nextId
  have accounts : execution.stats.Accounts settings execution.events :=
    (program.execute_accounts Scope.empty nextId).1
  have deep : ∀ event ∈ execution.events, event.depth ≤ depthCeiling := fun event isIn =>
    calc event.depth ≤ deepest execution.events := TraceEvent.depth_le_deepest isIn
      _ = execution.stats.maxSeen := (accounts.deepest rfl).symm
      _ ≤ effectiveDepth maxDepth := accounts.bounded
      _ ≤ depthCeiling := effectiveDepth_le maxDepth
  have named : ∀ event ∈ execution.events, event.runId = runId := by
    rw [split]
    exact List.forall_mem_append.mpr
      ⟨fun event isIn => (within event isIn).1, List.forall_mem_singleton.mpr rfl⟩
  have fits : ∀ event ∈ execution.events, ∀ field ∈ event.step.data, field.2.Fits := by
    intro event isIn
    have isDeep := deep event isIn
    rw [split] at isIn
    rcases List.mem_append.mp isIn with inside | last
    · exact TraceEvent.fits (by decide) (within event inside).2 isDeep
    · rw [List.mem_singleton.mp last]
      exact TraceStep.errorField_fits _
  have gathers := ofBytes_gathers (Cli.traceFile stamped)
  rw [records_traceFile (ofStamped fits) short] at gathers
  have names : execution.events.filterMap TraceEvent.called? =
      (program.called settings Scope.empty nextId).map Closure.name :=
    program.execute_names rfl Scope.empty nextId
  have called : (stamped.map StampedEvent.record).filterMap TraceRecord.called? =
      (program.called settings Scope.empty nextId).map fun closure => shown closure.name := by
    rw [called_records, same, names, List.map_map]
    rfl
  have ended : execution.events.filterMap TraceEvent.runError? =
      (execution.error.map EvalError.message).toList := by
    have nothing : inner.filterMap TraceEvent.runError? = [] :=
      List.filterMap_eq_nil_iff.mpr fun event isIn => (within event isIn).2.runError?_eq_none
    rw [split, List.filterMap_append, nothing, List.nil_append]
    cases execution.error <;> rfl
  constructor
  case events => rw [gathers.events, List.length_map, ← same, List.length_map]
  case statements =>
    rw [gathers.statements, countP_isStatement_records, same, accounts.statements rfl]
  case calls =>
    have starts (event : TraceEvent) : event.isCallStart = event.called?.isSome := by
      obtain ⟨run, span, step⟩ := event
      cases step <;> rfl
    rw [gathers.calls, called_records, same, List.length_map, List.length_filterMap_eq_countP,
      accounts.starts rfl]
    exact List.countP_congr fun event _ => by rw [starts]
  case maxDepth =>
    rw [gathers.maxDepth, greatest_records stamped (ofStamped deep), same, accounts.deepest rfl]
  case byName => exact called ▸ gathers.byName
  case total => exact gathers.byName.total.trans gathers.calls.symm
  case runId =>
    refine gathers.runId.trans (firstText_eq ?_ ?_)
    · rw [List.map_map]
      exact List.forall_mem_map.mpr (ofStamped named)
    · have filled : stamped.map StampedEvent.event ≠ [] := by
        rw [same, split]
        simp
      simpa using filled
  case error =>
    rw [gathers.error, runErrors_records, same, ended]
    cases execution.error <;> rfl

end Written

theorem Cli.stampFrom_events {σ : Type} (store : FileStore σ) (input : List UInt8)
    (events : List TraceEvent) : ∀ (done : List StampedEvent) (files : σ),
    ((stampFrom events done).runIn store input files).value.map StampedEvent.event =
      done.reverse.map StampedEvent.event ++ events := by
  induction events with
  | nil =>
    intro done files
    simp [stampFrom]
  | cons event rest ih =>
    intro done files
    rw [stampFrom, Task.runIn_bind]
    exact (ih _ _).trans (by simp)

/-- A trace that a run has written, with no line too long, is summarised as what the run did: its
events, statements and calls, how deep they were nested, how often the functions of each name were
called, and the message it failed with, if it did.  Each event has the time that the clock of the
store showed for it.  The length of the document is that of a list in memory, which a word can
hold. -/
theorem TraceSummary.written_traces_summarised [Yaml.Library] [Yaml.BoundsLists] {file : String}
    {bytes : List UInt8} {program : Program} (read : readProgram file bytes = .ok program)
    (held : bytes.length < Number.wordHalf) (maxDepth : Int) (runId : String) (nextId : Nat)
    {σ : Type} (store : FileStore σ) (input : List UInt8) (files : σ) :
    let settings : Settings := ⟨effectiveDepth maxDepth, true, runId⟩
    let execution := program.execute settings Scope.empty nextId
    let stamped := ((Cli.stampFrom execution.events []).runIn store input files).value
    (∀ event ∈ stamped, (Text.toBytes event.json).length < lineLimit) →
      Summarises runId execution (program.called settings Scope.empty nextId)
        (ofBytes (Cli.traceFile stamped)) := by
  intro settings execution stamped short
  have same : stamped.map StampedEvent.event = execution.events :=
    Cli.stampFrom_events store input execution.events [] files
  exact stamped_traces_summarised read held maxDepth runId nextId same short

def callFails : List UInt8 := Text.toBytes
  "'call':\n  'let': 'f'\n  'value':\n    'fn': []\n    'body':\n    - 'call':\n        'fn': []\n"

def FileStore.ticking : FileStore (List String) where
  find _ _ := .error .notFound
  write _ _ _ := .error .denied
  now times := (times.headD "", times.tail)

theorem TraceSummary.written_traces_summarised_callFails :
    ∃ program, readProgram "a.yaml" callFails = .ok program ∧
      callFails.length < Number.wordHalf ∧
      let execution := program.execute ⟨effectiveDepth 5, true, "r"⟩ Scope.empty 0
      let stamped := ((Cli.stampFrom execution.events []).runIn .ticking []
        ["1", "2", "3", "4", "5"]).value
      let summary := ofBytes (Cli.traceFile stamped)
      stamped.map StampedEvent.time = ["1", "2", "3", "4", "5"] ∧
      (∀ event ∈ stamped, (Text.toBytes event.json).length < lineLimit) ∧
      summary.events = 5 ∧ summary.maxDepth = 1 ∧ summary.runId = "r" ∧
      summary.callsByName.lookup "f" = some 1 ∧
      summary.callsByName.lookup "<anonymous>" = none ∧
      summary.error = "cannot call a function with an empty body" := by
  let place (line column : Nat) : Span := ⟨"a.yaml", line, column⟩
  let program : Program := ⟨place 1 1, [.call (place 1 1) (.define (place 2 3) "f"
    (.function (place 4 5) [] [.call (place 6 7) (.function (place 7 9) [] []) []])) []]⟩
  have read : readProgram "a.yaml" callFails = .ok program := by decide +kernel
  have held : callFails.length < Number.wordHalf := by decide +kernel
  let execution := program.execute ⟨effectiveDepth 5, true, "r"⟩ Scope.empty 0
  let message := "cannot call a function with an empty body"
  let steps : List TraceStep := [.runStart, .statementStart 0 "Call", .callStart "f" 0 1,
    .callEnd "f" (some message), .runEnd (some message)]
  have ran : execution.events = steps.map (fun step => ⟨"r", some (place 1 1), step⟩) ∧
      execution.stats.maxSeen = 1 ∧ execution.error.map EvalError.message = some message := by
    simp only [execution, program, Program.execute, executeFrom, Expr.evaluate_eq_eval]
    exact ⟨rfl, rfl, rfl⟩
  obtain ⟨events, reached, failed⟩ := ran
  let times := ["1", "2", "3", "4", "5"]
  let stamped := ((Cli.stampFrom execution.events []).runIn .ticking [] times).value
  have stamps : stamped = List.zipWith (fun time step => ⟨time, "r", some (place 1 1), step⟩)
      times steps := by
    simp only [stamped, events]
    rfl
  have short : ∀ event ∈ stamped, (Text.toBytes event.json).length < lineLimit := by
    rw [stamps]
    simp only [times, steps, List.zipWith_cons_cons, List.zipWith_nil_left, List.forall_mem_cons,
      StampedEvent.json, TraceEvent.json, Span.json, TraceStep.label, TraceStep.data,
      TraceStep.errorField, TraceStep.Datum.json, List.map_cons, List.map_nil, List.cons_append,
      List.nil_append, Option.map_some, Option.toList_some, Text.jsonObject, Text.json,
      String.foldl_eq_foldl_toList]
    decide +kernel
  have told := written_traces_summarised read held 5 "r" 0 .ticking [] times short
  have called : (program.called ⟨effectiveDepth 5, true, "r"⟩ Scope.empty 0).map
      (fun closure => shown closure.name) = ["f"] := by
    have names : execution.events.filterMap TraceEvent.called? =
        (program.called ⟨effectiveDepth 5, true, "r"⟩ Scope.empty 0).map Closure.name :=
      program.execute_names rfl Scope.empty 0
    rw [← Function.comp_def, ← List.map_map, ← names, events]
    rfl
  have byName := told.byName.lookup
  rw [called] at byName
  refine ⟨program, read, held, ?_, short, ?_, ?_, told.runId, byName "f", byName "<anonymous>", ?_⟩
  · exact (congrArg (List.map StampedEvent.time) stamps).trans rfl
  · rw [told.events, events]
    rfl
  · rw [told.maxDepth, reached]
    rfl
  · rw [told.error, failed]
    rfl

end Sapling
