import Sapling.Cli
import Sapling.Host
import Sapling.Proofs.Blame
import Sapling.Proofs.ConfigSearch
import Sapling.Proofs.Unreadable

/-!
# Checking, laying out and running agree

What can be done with a document starts with reading it.  Where that fails, the check, the layout
and the run give the same diagnostics, and so do the commands: they end alike and nothing is written
to standard output.  Where it succeeds, the tree has no faults left to report: the layout cannot
fail, the only errors of a check are repeated parameters (`checkProgram_hasErrors_iff`), and a run
fails with one of the four codes of evaluation.

A command is run in a store of any kind; `Cli.RunsSource` and `Cli.ReadsSource` say that it comes as
far as its source there.
-/

set_option autoImplicit false

namespace Sapling

/-! ## The check of what was read -/

namespace Check

theorem params_code_of_named {span : Span} {d : Diagnostic} {params : List String}
    (named : "" ∉ params) : ∀ {earlier : List String}, d ∈ Check.params span earlier params →
      d.code = Code.duplicateParam.text := by
  induction params with
  | nil => simp [Check.params]
  | cons param rest ih =>
    intro earlier member
    obtain ⟨first, others⟩ := not_or.mp fun isIn => named (List.mem_cons.mpr isIn)
    rw [Check.params, if_neg (Ne.symm first)] at member
    split at member
    · exact (List.mem_cons.mp member).elim (fun same => same ▸ rfl) (ih others)
    · exact ih others member

/-- Of a node that is spelled in a document only repeated parameters are reported, and what is worth
a warning. -/
theorem own_spellable {defined names : List String} {node : Expr} {absent d : Diagnostic}
    (spellable : node.Spellable) (member : d ∈ own defined node absent names) :
    (d.code ≠ Code.ast.text ∧ d.isError = false) ∨
      d.code = Code.duplicateParam.text ∧
        ∃ span params body, node = .function span params body ∧ ¬ params.Nodup := by
  cases node with
  | hole => exact spellable.elim
  | literal span value => simp [own] at member
  | guarded span condition consequent => simp [own] at member
  | call span callee args => simp [own] at member
  | read span name =>
    have named : name ≠ "" := spellable
    rw [own, if_neg named] at member
    split at member
    · simp at member
    · rw [List.mem_singleton.mp member]
      exact .inl ⟨by simp [neverBound, Diagnostic.warning, Code.text], rfl⟩
  | define span name value =>
    have named : name ≠ "" := spellable
    simp [own, named] at member
  | binary span symbol left right =>
    obtain ⟨op, rfl⟩ : ∃ op : Operator, symbol = op.symbol := spellable
    simp [own, Operator.ofSymbol?_symbol] at member
  | function span params body =>
    have named : "" ∉ params := spellable
    rcases List.mem_append.mp member with ofParams | ofBody
    · refine .inr ⟨params_code_of_named named ofParams, span, params, body, rfl, fun distinct => ?_⟩
      rw [params_eq_nil_iff.mpr ⟨named, distinct, by simp⟩] at ofParams
      simp at ofParams
    · split at ofBody
      · rw [List.mem_singleton.mp ofBody]
        exact .inl ⟨by simp [noBody, Diagnostic.warning, Diagnostic.withHint, Code.text], rfl⟩
      · simp at ofBody

end Check

def Program.RepeatsParam (program : Program) : Prop :=
  ∃ span params body, program.Contains (.function span params body) ∧ ¬ params.Nodup

section Read
variable [Yaml.Library] {file : String} {bytes : List UInt8} {program : Program}
  (read : readProgram file bytes = .ok program)
include read

theorem checkProgram_read {d : Diagnostic} (member : d ∈ checkProgram (some program)) :
    d.code ≠ Code.ast.text ∧ (d.isError = true → program.RepeatsParam) := by
  rw [Program.checkProgram_eq_reports] at member
  rcases Program.reports_own member with ⟨span, name, captured, rfl⟩ | inside
  · exact ⟨by simp [Check.staleRead, Diagnostic.warning, Diagnostic.withHint, Code.text], nofun⟩
  · obtain ⟨place, site, absent, found, _, isOwn⟩ := inside
    have contains : program.Contains site.expr := ⟨place, site.names, found⟩
    rcases Check.own_spellable (contains.written read).1 isOwn with ⟨code, warns⟩ | repeats
    · exact ⟨code, fun isError => absurd (warns.symm.trans isError) (by decide)⟩
    · obtain ⟨code, span, params, body, isFunction, repeated⟩ := repeats
      refine ⟨by rw [code]; decide, fun _ => ⟨span, params, body, isFunction ▸ contains, repeated⟩⟩

theorem checkProgram_hasErrors_iff :
    Diagnostic.hasErrors (checkProgram (some program)) = true ↔ program.RepeatsParam := by
  rw [Diagnostic.hasErrors, List.any_eq_true]
  constructor
  · rintro ⟨d, member, isError⟩
    exact (checkProgram_read read member).2 isError
  · rintro ⟨span, params, body, ⟨place, names, found⟩, repeated⟩
    obtain ⟨absent, _, reported⟩ := Program.own_subset_reports program.definedNames found
    cases reports : Check.params span [] params with
    | nil => exact absurd (Check.params_eq_nil_iff.mp reports).2.1 repeated
    | cons d rest =>
      have isIn : d ∈ Check.params span [] params := by simp [reports]
      exact ⟨d, reported (List.mem_append_left _ isIn), Check.params_isError isIn⟩

theorem execute_read_code (settings : Settings) (nextId : Nat) {error : EvalError}
    (failed : (program.execute settings Scope.empty nextId).error = some error) :
    error.failure.code ∈ [Code.type, .undefined, .emptyBody, .stackOverflow] := by
  have nothing : Scope.empty.From (StandsIn []) := Scope.empty_each
  have origin := (program.execute_standsIn settings nothing nextId).1 error failed
  refine origin.code_mem ?_
  simpa using ⟨file, bytes, read⟩

end Read

/-! ## Commands on a source -/

namespace Runtime

theorem run_unshared [Yaml.Library] {runtime : Runtime} (unshared : runtime.scope = none)
    (file : String) (bytes : List UInt8) (scopes : Scopes) (nextId : Nat) :
    (runtime.run file bytes scopes nextId).1 =
      runDocument runtime.settings file bytes Scope.empty nextId := by
  simp only [run, unshared]

end Runtime

namespace Cli

@[simp]
theorem Report.traced_exit (report : Report) (trace : String) (written : Except FileError Unit) :
    (report.traced trace written).exit = report.exit := by
  cases written <;> rfl

@[simp]
theorem Report.traced_out (report : Report) (trace : String) (written : Except FileError Unit) :
    (report.traced trace written).said.out = report.said.out := by
  cases written with
  | ok done => rfl
  | error error => exact String.append_empty

theorem RunOptions.runtime_alone (options : RunOptions) (runId : String) (config : Config) :
    (options.runtime runId config).scope = none ∧
      (options.runtime runId config).tracing = false := by
  unfold RunOptions.runtime
  cases options.maxDepth <;> exact ⟨rfl, rfl⟩

/-- The file for the trace: the one asked for, or else the one that is configured. -/
def RunOptions.traceUnder (options : RunOptions) (config : Config) : String :=
  if options.trace.isEmpty then config.trace else options.trace

theorem readSource_left {σ : Type} (store : FileStore σ) (input : List UInt8) (files : σ)
    (file : String) :
    ((readSource file).runIn store input files).left = files := by
  unfold readSource
  split
  · rfl
  · simp only [Task.readFile, Task.runIn_bind, Task.runIn_lookAt]
    split <;> (try split) <;> rfl

section Commands
variable [Yaml.Library] {σ : Type} (store : FileStore σ) (input : List UInt8) (files : σ)
  (context : Context) {arguments : List String} {source : List UInt8 × String}

def reportIn (arguments : List String) : Report :=
  ((command context arguments).runIn store input files).value

/-- A run with these arguments comes to run the source: the arguments can be used and name a file,
the configuration and the file can be read, and the file for the trace can be opened if there is
one. -/
inductive RunsSource (arguments : List String) (source : List UInt8 × String) : Prop
  | intro (options : RunOptions) (config : Config)
    (usable : RunOptions.take arguments ⟨"", false, "", none⟩ = .ok options)
    (named : options.file ≠ "")
    (configured : ((Config.load context.home context.project).runIn store input
      files).value.config = .ok config)
    (readable : ((readSource options.file).runIn store input files).value = some source)
    (opened : options.traceUnder config = "" ∨
      ∃ after, store.write files (options.traceUnder config) [] = .ok after)

/-- The arguments of a check or a layout name a file that can be read. -/
def ReadsSource (arguments : List String) (source : List UInt8 × String) : Prop :=
  ∃ file, (arguments.filter isFile).getLast? = some file ∧ file ≠ "" ∧
    ((readSource file).runIn store input files).value = some source

section Source
variable {runtime : Runtime} {trace : String} (pretty : Bool)

theorem runSource_opened (alone : runtime.scope = none ∧ runtime.tracing = false)
    (opened : trace = "" ∨ ∃ after, store.write files trace [] = .ok after) :
    ∃ tracing written, (tracing = false → written = .ok ()) ∧
      ((runSource runtime trace pretty source).runIn store input files).value =
        (reportRun pretty (runDocument { runtime.settings with tracing } source.2 source.1
          Scope.empty 0)).traced trace written := by
  obtain ⟨unshared, untracing⟩ := alone
  by_cases untraced : trace = ""
  · refine ⟨false, .ok (), fun _ => rfl, ?_⟩
    have quiet : { runtime.settings with tracing := false } = runtime.settings := by
      rw [Runtime.settings, untracing]
    simp [runSource, untraced, Runtime.run_unshared unshared, quiet, Report.traced]
  · obtain ⟨after, opened⟩ := opened.resolve_left untraced
    have shared : runtime.withTrace.scope = none := unshared
    simp only [runSource, String.isEmpty_iff, untraced, if_false, Task.runIn_bind,
      Task.runIn_put_ok store input opened, Runtime.run_unshared shared, Task.runIn_pure]
    exact ⟨true, _, fun quiet => (by cases quiet), rfl⟩

theorem runSource_unopened
    (unopened : ¬ (trace = "" ∨ ∃ after, store.write files trace [] = .ok after)) :
    ((runSource runtime trace pretty source).runIn store input files).value.exit = .usage := by
  obtain ⟨traced, failed⟩ := not_or.mp unopened
  cases written : store.write files trace [] with
  | ok after => exact absurd ⟨after, written⟩ failed
  | error error =>
    simp only [runSource, String.isEmpty_iff, traced, if_false, Task.runIn_bind,
      Task.runIn_put_error store input written]
    rfl

end Source

variable {store input files context}

theorem RunsSource.report (runs : RunsSource store input files context arguments source) :
    ∃ settings pretty trace written,
      reportIn store input files context ("run" :: arguments) =
        (reportRun pretty (runDocument settings source.2 source.1 Scope.empty 0)).traced trace
          written := by
  obtain ⟨options, config, usable, named, configured, readable, opened⟩ := runs
  have left : ((Config.load context.home context.project).runIn store input files).left = files :=
    Config.loadFirst_left store input files _
  have reported : reportIn store input files context ("run" :: arguments) =
      ((runSource (options.runtime context.runId config) (options.traceUnder config)
        (options.pretty || config.pretty) source).runIn store input files).value := by
    simp [reportIn, command, runCommand, usable, named, configured, left, readable, readSource_left,
      RunOptions.traceUnder]
  obtain ⟨_, written, _, report⟩ := runSource_opened store input files
    (options.pretty || config.pretty) (options.runtime_alone context.runId config) opened
  exact ⟨_, _, _, written, reported.trans report⟩

theorem ReadsSource.checked (reads : ReadsSource store input files arguments source) :
    ∃ pretty, reportIn store input files context ("check" :: arguments) =
      reportCheck pretty (checkDocument source.2 source.1) := by
  obtain ⟨file, last, named, readable⟩ := reads
  refine ⟨arguments.contains "--pretty", ?_⟩
  simp [reportIn, command, checkCommand, last, named, readable]

theorem ReadsSource.laidOut (reads : ReadsSource store input files arguments source) :
    reportIn store input files context ("fmt" :: arguments) =
      match layoutDocument source.2 source.1 with
      | .error diagnostics => .diagnosed .diagnostics diagnostics false
      | .ok text => .ok text := by
  obtain ⟨file, last, named, readable⟩ := reads
  cases laid : layoutDocument source.2 source.1 <;>
    simp [reportIn, command, layoutCommand, last, named, readable, laid]

end Commands

end Cli

/-! ## Agreement -/

section Agreement
variable [Yaml.Library] {σ : Type} (store : FileStore σ) (input : List UInt8) (files : σ)
  (context : Cli.Context) (file : String) (bytes : List UInt8)

/-- All that can be done with the document comes to these diagnostics and to nothing else. -/
structure RefusedWith (diagnostics : List Diagnostic) : Prop where
  reported : diagnostics ≠ []
  run : ∀ settings scope nextId, runDocument settings file bytes scope nextId = .error diagnostics
  runtime : ∀ (runtime : Runtime) (scopes : Scopes) (nextId : Nat),
    runtime.run file bytes scopes nextId = (.error diagnostics, scopes)
  layout : layoutDocument file bytes = .error diagnostics
  check : checkDocument file bytes = diagnostics
  host : ∀ (host : Host) (scope : String) (maxDepth : Int),
    (host.step (.run scope file bytes maxDepth)).1 = host
  runCommand : ∀ arguments, Cli.RunsSource store input files context arguments (bytes, file) →
    (Cli.reportIn store input files context ("run" :: arguments)).exit.code = 2 ∧
      (Cli.reportIn store input files context ("run" :: arguments)).said.out = ""
  otherCommands : ∀ name ∈ ["check", "fmt"], ∀ arguments,
    Cli.ReadsSource store input files arguments (bytes, file) →
    (Cli.reportIn store input files context (name :: arguments)).exit.code = 2 ∧
      (Cli.reportIn store input files context (name :: arguments)).said.out = ""

/-- The document holds the program: it is laid out, checked for repeated parameters and run. -/
structure TakenAs (program : Program) : Prop where
  layoutCommand : ∀ arguments, Cli.ReadsSource store input files arguments (bytes, file) →
    Cli.reportIn store input files context ("fmt" :: arguments) = .ok program.layout
  check : ∀ d ∈ checkProgram (some program), d.code ≠ Code.ast.text
  checkCommand : ∀ arguments, Cli.ReadsSource store input files arguments (bytes, file) →
    (program.RepeatsParam →
      (Cli.reportIn store input files context ("check" :: arguments)).exit.code = 2) ∧
    (¬ program.RepeatsParam →
      (Cli.reportIn store input files context ("check" :: arguments)).exit.code = 0)
  runCommand : ∀ arguments, Cli.RunsSource store input files context arguments (bytes, file) →
    ∃ settings, (program.execute settings Scope.empty 0).error = none ∧
        (Cli.reportIn store input files context ("run" :: arguments)).exit.code = 0 ∨
      ∃ error, (program.execute settings Scope.empty 0).error = some error ∧
        (Cli.reportIn store input files context ("run" :: arguments)).exit.code = 4 ∧
        error.failure.code ∈ [Code.type, .undefined, .emptyBody, .stackOverflow] ∧
        ∃ pretty trace written,
          Cli.reportIn store input files context ("run" :: arguments) =
            (Cli.Report.diagnosed .runtime
              [⟨error.failure.code.text, error.message, error.span, "", ""⟩] pretty).traced trace
                written

theorem checkDocument_of_unread {diagnostics : List Diagnostic}
    (unread : readProgram file bytes = .error diagnostics) :
    checkDocument file bytes = diagnostics := by
  delta checkDocument
  rw [unread]

theorem checkDocument_of_read {program : Program} (read : readProgram file bytes = .ok program) :
    checkDocument file bytes = checkProgram (some program) := by
  delta checkDocument
  rw [read]

theorem refusedWith_of_unread {diagnostics : List Diagnostic}
    (unread : readProgram file bytes = .error diagnostics) :
    RefusedWith store input files context file bytes diagnostics := by
  obtain ⟨reported, errors⟩ := readProgram_explained unread
  have run (settings : Settings) (scope : Scope) (nextId : Nat) :
      runDocument settings file bytes scope nextId = .error diagnostics := by
    simp [runDocument, unread, Except.map]
  have layout : layoutDocument file bytes = .error diagnostics := by
    simp [layoutDocument, unread, Except.map]
  have check := checkDocument_of_unread file bytes unread
  have hasErrors : Diagnostic.hasErrors diagnostics = true := by
    obtain ⟨d, member⟩ := List.exists_mem_of_ne_nil diagnostics reported
    exact List.any_eq_true.mpr ⟨d, member, (errors d member).2⟩
  refine ⟨reported, run, ?_, layout, check, ?_, ?_, ?_⟩
  · intro runtime scopes nextId
    unfold Runtime.run
    cases runtime.scope with
    | none => simp only [run]
    | some place => simp only [run]
  · intro host scope maxDepth
    delta Host.step
    simp only [run]
  · intro arguments runs
    obtain ⟨settings, pretty, trace, written, report⟩ := runs.report
    rw [report, run, Cli.Report.traced_exit, Cli.Report.traced_out]
    exact ⟨rfl, rfl⟩
  · intro name isIn arguments reads
    rcases List.mem_pair.mp isIn with rfl | rfl
    · obtain ⟨pretty, report⟩ := reads.checked
      rw [report, check, Cli.reportCheck, if_pos hasErrors]
      exact ⟨rfl, rfl⟩
    · rw [reads.laidOut, layout]
      exact ⟨rfl, rfl⟩

theorem takenAs_of_read {program : Program} (read : readProgram file bytes = .ok program) :
    TakenAs store input files context file bytes program := by
  refine ⟨?_, fun d member => (checkProgram_read read member).1, ?_, ?_⟩
  · intro arguments reads
    rw [reads.laidOut, layoutDocument, read]
    rfl
  · intro arguments reads
    obtain ⟨pretty, report⟩ := reads.checked
    rw [report, checkDocument_of_read file bytes read, Cli.reportCheck,
      ← checkProgram_hasErrors_iff read]
    constructor <;> intro errors <;> simp [errors, Cli.Report.fail, Cli.Exit.code]
  · intro arguments runs
    obtain ⟨settings, pretty, trace, written, report⟩ := runs.report
    rw [runDocument, read] at report
    dsimp only [Except.map, Cli.reportRun] at report
    refine ⟨settings, ?_⟩
    cases failed : (program.execute settings Scope.empty 0).error with
    | none =>
      rw [failed] at report
      rw [report, Cli.Report.traced_exit]
      exact .inl ⟨rfl, rfl⟩
    | some error =>
      rw [failed] at report
      refine .inr ⟨error, rfl, ?_, execute_read_code read settings 0 failed, pretty, trace, written,
        report⟩
      rw [report, Cli.Report.traced_exit]
      rfl

end Agreement

/-- A document that cannot be read is refused by all that can be done with it, with the same
diagnostics; one that can be read is taken for the same program by all. -/
theorem documents_agreed_on [Yaml.Library] {σ : Type} (store : FileStore σ) (input : List UInt8)
    (files : σ) (context : Cli.Context) (file : String) (bytes : List UInt8) :
    (∀ diagnostics, readProgram file bytes = .error diagnostics →
      RefusedWith store input files context file bytes diagnostics) ∧
    ∀ program, readProgram file bytes = .ok program →
      TakenAs store input files context file bytes program :=
  ⟨fun _ unread => refusedWith_of_unread store input files context file bytes unread,
    fun _ read => takenAs_of_read store input files context file bytes read⟩

namespace Cli

def atWork : Context := ⟨some "/home", "/work", "r"⟩

def refusedCall : List UInt8 := Text.toBytes "'call':\n  'fn': []\n"

def shelf : List (String × List UInt8) :=
  [("/work/text", Text.toBytes "'text'\n"), ("/work/twice", Text.toBytes "'fn': ['a', 'a']\n"),
    ("/work/call", refusedCall)]

def callArguments : String → List String
  | "<stdin>" => ["--trace", "/work/trace", "-"]
  | path => [path]

theorem runsSource_refusedCall {file : String} (isIn : file ∈ ["/work/call", "<stdin>"]) :
    RunsSource .byName refusedCall shelf atWork (callArguments file) (refusedCall, file) := by
  rcases List.mem_pair.mp isIn with rfl | rfl
  · exact ⟨⟨"/work/call", false, "", none⟩, Config.usual, rfl, by decide, rfl, rfl, .inl rfl⟩
  · exact ⟨⟨"-", false, "/work/trace", none⟩, Config.usual, rfl, by decide, rfl, rfl, .inr ⟨_, rfl⟩⟩

end Cli

/-- A text is no program, and all three commands refuse it.  A function that takes one parameter
twice can be laid out, but the check ends with errors.  A call of a function without a body ends the
run, be it in a file or on standard input. -/
theorem documents_agreed_on_shelf :
    let report := Cli.reportIn .byName Cli.refusedCall Cli.shelf Cli.atWork
    (∀ name ∈ ["run", "check", "fmt"], (report [name, "/work/text"]).exit.code = 2) ∧
    (report ["check", "/work/twice"]).exit.code = 2 ∧
    (report ["fmt", "/work/twice"]).exit.code = 0 ∧
    ∀ file ∈ ["/work/call", "<stdin>"],
      (report ("run" :: Cli.callArguments file)).exit.code = 4 ∧
        ∃ pretty trace written, report ("run" :: Cli.callArguments file) =
          (Cli.Report.diagnosed .runtime [⟨"E_EMPTY_BODY",
            "cannot call a function with an empty body", some ⟨file, 1, 1⟩, "", ""⟩] pretty).traced
              trace written := by
  intro report
  have agreed := documents_agreed_on .byName Cli.refusedCall Cli.shelf Cli.atWork
  have unread : readProgram "/work/text" (Text.toBytes "'text'\n") =
      .error [.error .ast "document must be a sequence of expressions or a single expression"
        (some ⟨"/work/text", 1, 1⟩)] := by
    decide +kernel
  have twice : readProgram "/work/twice" (Text.toBytes "'fn': ['a', 'a']\n") =
      .ok ⟨⟨"/work/twice", 1, 1⟩, [.function ⟨"/work/twice", 1, 1⟩ ["a", "a"] []]⟩ := by
    decide +kernel
  have refused := (agreed _ _).1 _ unread
  have taken := (agreed _ _).2 _ twice
  have readsTwice : Cli.ReadsSource .byName Cli.refusedCall Cli.shelf ["/work/twice"]
      (Text.toBytes "'fn': ['a', 'a']\n", "/work/twice") := ⟨_, rfl, by decide, rfl⟩
  have repeats : Program.RepeatsParam
      ⟨⟨"/work/twice", 1, 1⟩, [.function ⟨"/work/twice", 1, 1⟩ ["a", "a"] []]⟩ :=
    ⟨_, _, _, Program.contains_statement (List.mem_singleton.mpr rfl), by decide⟩
  refine ⟨?_, (taken.checkCommand _ readsTwice).1 repeats, ?_, ?_⟩
  · refine List.forall_mem_cons.mpr ⟨?_, fun name isIn => ?_⟩
    · exact (refused.runCommand _ ⟨⟨"/work/text", false, "", none⟩, Config.usual, rfl, by decide,
        rfl, rfl, .inl rfl⟩).1
    · exact (refused.otherCommands name isIn _ ⟨_, rfl, by decide, rfl⟩).1
  · simp only [report, taken.layoutCommand _ readsTwice]
    rfl
  · intro file isIn
    let program : Program :=
      ⟨⟨file, 1, 1⟩, [.call ⟨file, 1, 1⟩ (.function ⟨file, 2, 3⟩ [] []) []]⟩
    have read : readProgram file Cli.refusedCall = .ok program := by
      rcases List.mem_pair.mp isIn with rfl | rfl <;> decide +kernel
    have fails (settings : Settings) : (program.execute settings Scope.empty 0).error =
        some ⟨.emptyBody, some ⟨file, 1, 1⟩⟩ := by
      simp only [program, Program.execute, executeFrom, Expr.evaluate_eq_eval]
      obtain ⟨_ | limit, _ | _, runId⟩ := settings <;>
        rcases List.mem_pair.mp isIn with rfl | rfl <;> rfl
    obtain ⟨settings, outcome⟩ :=
      ((agreed _ _).2 program read).runCommand _ (Cli.runsSource_refusedCall isIn)
    rw [fails] at outcome
    obtain ⟨succeeds, _⟩ | ⟨error, same, code, _, said⟩ := outcome
    · cases succeeds
    · cases same
      exact ⟨code, said⟩

end Sapling
