import Sapling.Trace.Summary
import Mathlib.Algebra.Ring.Nat
import Mathlib.Data.Int.Order.Basic
import Mathlib.Data.List.Induction

/-!
# Gathering records

A summary is made by adding the records of a trace one after another.  What it then says of them is
what `TraceSummary.Gathers` lists: it counts, keeps the first of some texts and the last of others,
and the greatest depth.  Adding one record keeps this true (`TraceSummary.Gathers.add`), so it is
true of the summary of all (`TraceSummary.ofBytes_gathers`).
-/

set_option autoImplicit false

namespace Sapling

namespace TraceSummary

/-! ## Counting names -/

/-- The names with how often each occurs, in order and each once. -/
structure Tally (names : List String) (counts : List (String × Nat)) : Prop where
  increasing : (counts.map Prod.fst).Pairwise (· < ·)
  lookup : ∀ name, counts.lookup name = if name ∈ names then some (names.count name) else none
  total : (counts.map Prod.snd).sum = names.length

theorem mem_countName (name other : String) (counts : List (String × Nat)) :
    other ∈ (countName name counts).map Prod.fst ↔
      other = name ∨ other ∈ counts.map Prod.fst := by
  fun_induction countName name counts with
  | case1 => simp
  | case2 count rest => simp
  | case3 key count rest _ _ => simp
  | case4 key count rest _ _ ih =>
    simp only [List.map_cons, List.mem_cons, ih]
    exact or_left_comm

theorem countName_increasing (name : String) {counts : List (String × Nat)}
    (increasing : (counts.map Prod.fst).Pairwise (· < ·)) :
    ((countName name counts).map Prod.fst).Pairwise (· < ·) := by
  fun_induction countName name counts with
  | case1 => exact List.pairwise_singleton _ _
  | case2 count rest => exact increasing
  | case3 key count rest _ less =>
    refine List.pairwise_cons.mpr ⟨List.forall_mem_cons.mpr ⟨less, ?_⟩, increasing⟩
    exact fun later isIn => String.lt_trans less (List.rel_of_pairwise_cons increasing isIn)
  | case4 key count rest differs notLess ih =>
    obtain ⟨first, others⟩ := List.pairwise_cons.mp increasing
    refine List.pairwise_cons.mpr ⟨fun later isIn => ?_, ih others⟩
    rcases (mem_countName name later rest).mp isIn with rfl | there
    · exact Std.lt_of_le_of_ne (String.not_lt.mp notLess) (Ne.symm differs)
    · exact first later there

theorem sum_countName (name : String) (counts : List (String × Nat)) :
    ((countName name counts).map Prod.snd).sum = (counts.map Prod.snd).sum + 1 := by
  fun_induction countName name counts with
  | case1 => rfl
  | case2 count rest =>
    simp only [List.map_cons, List.sum_cons]
    omega
  | case3 key count rest _ _ =>
    simp only [List.map_cons, List.sum_cons]
    omega
  | case4 key count rest _ _ ih =>
    simp only [List.map_cons, List.sum_cons, ih]
    omega

theorem lookup_entry (name key : String) (count : Nat) (rest : List (String × Nat)) :
    ((key, count) :: rest).lookup name = if name = key then some count else rest.lookup name := by
  rw [List.lookup_cons]
  by_cases same : name = key
  · simp [same]
  · simp [same, beq_false_of_ne same]

theorem lookup_countName (name other : String) {counts : List (String × Nat)}
    (increasing : (counts.map Prod.fst).Pairwise (· < ·)) :
    (countName name counts).lookup other =
      if other = name then some ((counts.lookup name).getD 0 + 1) else counts.lookup other := by
  fun_induction countName name counts with
  | case1 => exact lookup_entry other name 1 []
  | case2 count rest =>
    simp only [lookup_entry, if_true, Option.getD_some]
    split <;> rfl
  | case3 key count rest differs less =>
    -- all names that are there come after the new one
    have absent : ((key, count) :: rest).lookup name = none := by
      refine List.lookup_eq_none_iff.mpr fun entry isIn => ?_
      have later : name < entry.1 := by
        rcases List.mem_cons.mp isIn with rfl | there
        · exact less
        · exact String.lt_trans less
            (List.rel_of_pairwise_cons increasing (List.mem_map_of_mem there))
      simpa using fun same : name = entry.1 => String.lt_irrefl _ (same ▸ later)
    rw [lookup_entry, absent]
    rfl
  | case4 key count rest differs _ ih =>
    rw [lookup_entry, lookup_entry, lookup_entry, ih (List.pairwise_cons.mp increasing).2,
      if_neg differs]
    by_cases same : other = key
    · simp [same, Ne.symm differs]
    · simp [same]

theorem Tally.add {names : List String} {counts : List (String × Nat)} (tally : Tally names counts)
    (name : String) : Tally (names ++ [name]) (countName name counts) where
  increasing := countName_increasing name tally.increasing
  total := by rw [sum_countName, tally.total, List.length_append, List.length_singleton]
  lookup other := by
    rw [lookup_countName name other tally.increasing, tally.lookup, tally.lookup]
    by_cases same : other = name
    · subst same
      by_cases known : other ∈ names
      · simp [known]
      · simp [known, List.count_eq_zero_of_not_mem known]
    · simp [same, List.count_append, Ne.symm same]

def shown (name : String) : String := if name.isEmpty then anonymous else name

end TraceSummary

/-! ## What a record tells -/

namespace TraceRecord

def isStatement (record : TraceRecord) : Bool := record.event = "stmt_start"

def called? (record : TraceRecord) : Option String :=
  if record.event = "fn_call_start" then
    some (TraceSummary.shown ((record.textOf? "fn").getD ""))
  else none

def depth? (record : TraceRecord) : Option Int :=
  if record.event = "fn_call_start" then record.countOf? "depth" else none

def startTime? (record : TraceRecord) : Option String :=
  if record.event = "run_start" then some record.time else none

def endTime? (record : TraceRecord) : Option String :=
  if record.event = "run_end" then some record.time else none

def runError? (record : TraceRecord) : Option String :=
  if record.event = "run_end" then record.textOf? "error" else none

end TraceRecord

namespace TraceSummary

/-- All that adding a record does. -/
theorem add_eq (summary : TraceSummary) (record : TraceRecord) :
    summary.add record =
      { runId := if summary.runId.isEmpty then record.runId else summary.runId
        events := summary.events + 1
        statements := summary.statements + if record.isStatement then 1 else 0
        calls := summary.calls + if record.called?.isSome then 1 else 0
        callsByName := record.called?.elim summary.callsByName (countName · summary.callsByName)
        maxDepth := max summary.maxDepth (record.depth?.getD summary.maxDepth)
        error := record.runError?.getD summary.error
        startTime :=
          if summary.startTime.isEmpty then record.startTime?.getD "" else summary.startTime
        endTime := record.endTime?.getD summary.endTime } := by
  unfold add
  dsimp only
  unfold TraceRecord.isStatement TraceRecord.called? TraceRecord.depth? TraceRecord.startTime?
    TraceRecord.endTime? TraceRecord.runError?
  by_cases starts : record.event = "run_start"
  · simp [starts]
  by_cases ends : record.event = "run_end"
  · simp [ends]
  by_cases states : record.event = "stmt_start"
  · simp [states]
  by_cases calls : record.event = "fn_call_start"
  · simp [calls, addCall, shown]
  · simp [starts, ends, states, calls]

/-! ## Texts that come first or last, and depths -/

def firstText (texts : List String) : String := (texts.find? (!·.isEmpty)).getD ""

def lastText (texts : List String) : String := texts.getLast?.getD ""

def greatest (depths : List Int) : Int := depths.foldl max 0

theorem firstText_singleton (text : String) : firstText [text] = text := by
  by_cases empty : text = "" <;> simp [firstText, empty]

theorem firstText_append (first second : List String) :
    firstText (first ++ second) =
      if (firstText first).isEmpty then firstText second else firstText first := by
  unfold firstText
  rw [List.find?_append]
  cases found : first.find? (!·.isEmpty) with
  | none => simp
  | some text =>
    have filled : text.isEmpty = false := by simpa using List.find?_some found
    simp [filled]

theorem lastText_append (first second : List String) :
    lastText (first ++ second) = if second = [] then lastText first else lastText second := by
  unfold lastText
  rw [List.getLast?_append]
  by_cases empty : second = []
  · simp [empty]
  · obtain ⟨text, last⟩ := Option.ne_none_iff_exists'.mp (mt List.getLast?_eq_none_iff.mp empty)
    simp [empty, last]

theorem foldl_max (depths : List Int) : ∀ {least : Int}, 0 ≤ least →
    depths.foldl max least = max least (greatest depths) := by
  unfold greatest
  induction depths with
  | nil =>
    intro least nonneg
    exact (max_eq_left nonneg).symm
  | cons depth rest ih =>
    intro least nonneg
    have first : (0 : Int) ≤ max least depth := Int.le_trans nonneg (le_max_left _ _)
    have second : (0 : Int) ≤ max 0 depth := le_max_left _ _
    rw [List.foldl_cons, List.foldl_cons, ih first, ih second]
    omega

theorem greatest_nonneg (depths : List Int) : 0 ≤ greatest depths := by
  have whole := foldl_max depths (Int.le_refl 0)
  unfold greatest at *
  omega

theorem greatest_append (first second : List Int) :
    greatest (first ++ second) = max (greatest first) (greatest second) := by
  rw [greatest, List.foldl_append]
  exact foldl_max second (greatest_nonneg first)

/-! ## Gathering records -/

/-- What a summary says of the records that it was made of. -/
structure Gathers (records : List TraceRecord) (summary : TraceSummary) : Prop where
  events : summary.events = records.length
  statements : summary.statements = records.countP TraceRecord.isStatement
  calls : summary.calls = (records.filterMap TraceRecord.called?).length
  byName : Tally (records.filterMap TraceRecord.called?) summary.callsByName
  maxDepth : summary.maxDepth = greatest (records.filterMap TraceRecord.depth?)
  runId : summary.runId = firstText (records.map TraceRecord.runId)
  startTime : summary.startTime = firstText (records.filterMap TraceRecord.startTime?)
  endTime : summary.endTime = lastText (records.filterMap TraceRecord.endTime?)
  error : summary.error = lastText (records.filterMap TraceRecord.runError?)

theorem Gathers.add {records : List TraceRecord} {summary : TraceSummary}
    (gathers : Gathers records summary) (record : TraceRecord) :
    Gathers (records ++ [record]) (summary.add record) := by
  rw [add_eq]
  constructor
  case events => simp [gathers.events]
  case statements => simp [gathers.statements, List.countP_append, List.countP_singleton]
  case calls =>
    cases called : record.called? <;> simp [gathers.calls, called]
  case byName =>
    rw [List.filterMap_append]
    cases called : record.called? with
    | none => simpa [called] using gathers.byName
    | some name => simpa [called] using gathers.byName.add name
  case maxDepth =>
    have nonneg := greatest_nonneg (records.filterMap TraceRecord.depth?)
    rw [List.filterMap_append, greatest_append]
    rw [← gathers.maxDepth] at nonneg ⊢
    cases depth : record.depth? with
    | none =>
      rw [List.filterMap_cons_none depth, Option.getD_none]
      exact (max_self _).trans (max_eq_left nonneg).symm
    | some reached =>
      rw [List.filterMap_cons_some depth, Option.getD_some]
      change max _ _ = max _ (max 0 reached)
      omega
  case runId =>
    rw [List.map_append, firstText_append, gathers.runId, List.map_singleton, firstText_singleton]
  case startTime =>
    rw [List.filterMap_append, firstText_append, gathers.startTime]
    cases started : record.startTime? with
    | none => rw [List.filterMap_cons_none started]; rfl
    | some time =>
      rw [List.filterMap_cons_some started, List.filterMap_nil, firstText_singleton]
      rfl
  case endTime =>
    rw [List.filterMap_append, lastText_append, gathers.endTime]
    cases ended : record.endTime? <;> simp [ended, lastText]
  case error =>
    rw [List.filterMap_append, lastText_append, gathers.error]
    cases failed : record.runError? <;> simp [failed, lastText]

theorem foldl_gathers (records : List TraceRecord) :
    Gathers records (records.foldl add empty) := by
  induction records using List.reverseRecOn with
  | nil => exact ⟨rfl, rfl, rfl, ⟨List.Pairwise.nil, fun _ => rfl, rfl⟩, rfl, rfl, rfl, rfl, rfl⟩
  | append_singleton records record ih =>
    rw [List.foldl_append]
    exact ih.add record

/-- The events of a trace, up to the first line that is too long. -/
def records (bytes : List UInt8) : List TraceRecord :=
  ((Text.lines bytes).takeWhile fun line => line.length < lineLimit).filterMap fun line =>
    TraceRecord.ofLine? (Text.dropReturn line)

theorem ofBytes_gathers (bytes : List UInt8) : Gathers (records bytes) (ofBytes bytes) :=
  foldl_gathers (records bytes)

end TraceSummary
end Sapling
