import Sapling.Proofs.Accounts
import Sapling.Proofs.Agreement
import Sapling.Proofs.NumberText

/-!
# The depth in force

Which limit a run is under: the last depth that its arguments ask for, or else the one that is
configured and that the command for the configuration shows.  Both lie between 1 and the ceiling
when they are found, so the limit of an execution is that number as it stands, and a call that is
refused for its depth is reported with it (`Program.execute_overflow`).

A depth is asked for by the argument after `--max-depth`, where that is not itself the path after a
`--trace` (`Cli.depthsAsked`).
-/

set_option autoImplicit false

namespace Sapling

/-! ## The limit that is reported -/

/-- Where a call was refused for its depth, the limit is named. -/
def NamesLimit (limit : Nat) (error : EvalError) : Prop :=
  error.failure.code = .stackOverflow → error.failure = .tooDeep limit

namespace Machine

theorem run_namesLimit (settings : Settings) (m : Machine) (calm : Calm m) {error : EvalError}
    (failed : (m.run settings).outcome = .error error) : NamesLimit settings.limit error := by
  induction m using run_induction settings with
  | ended m evaluated ended =>
    rw [run_of_end ended] at failed
    rw [step_eq_inr ended] at calm
    exact fun code => absurd code (calm error (congrArg Control.give failed))
  | stepped m next stepped ih =>
    rw [run_of_step stepped] at failed
    -- the run under a limit one higher tells whether this step refuses a call
    obtain ⟨_, _, parallel⟩ := step_raise Nat.one_pos calm stepped
    cases parallel with
    | together nextCalm _ => exact ih nextCalm failed
    | refused span scope frames _ refusal _ =>
      rw [refusal, run_giving_error] at failed
      cases failed
      exact fun _ => rfl

end Machine

theorem executeFrom_namesLimit (settings : Settings) (statements : List Expr) (index : Nat)
    (scope : Scope) (state : EvalState) :
    ∀ error, (executeFrom settings index statements scope state).error = some error →
      NamesLimit settings.limit error := by
  induction statements, index, scope, state using executeFrom_induction settings with
  | nil index scope state =>
    intro error failed
    cases failed
  | fails index statement rest scope state error after later evaluated =>
    intro other same
    cases same
    have outcome := congrArg Evaluated.outcome evaluated
    exact Machine.run_namesLimit settings _ Machine.calm_evaluating outcome
  | completes index statement rest scope state value after later others evaluated ih => exact ih

theorem Program.execute_overflow (settings : Settings) (program : Program) (scope : Scope)
    (nextId : Nat) :
    let execution := program.execute settings scope nextId
    execution.stats.maxSeen ≤ settings.limit ∧
      ∀ error, execution.error = some error → error.failure.code = .stackOverflow →
        execution.stats.maxSeen = settings.limit ∧
          error.message = "call stack exhausted (max depth " ++ toString settings.limit ++ ")" := by
  intro execution
  obtain ⟨accounts, full⟩ := program.execute_accounts scope nextId
  refine ⟨accounts.bounded, fun error failed code => ⟨full ⟨error, failed, code⟩, ?_⟩⟩
  have named := executeFrom_namesLimit settings program.statements 0 scope _ error failed code
  rw [EvalError.message, named]
  rfl

/-! ## Depths in arguments -/

namespace Cli

/-- The text is of digits, maybe after a plus, that spell the number. -/
def Spells (text : String) (number : Nat) : Prop :=
  ∃ digits, (text.toList = digits ∨ text.toList = '+' :: digits) ∧ digits ≠ [] ∧
    (∀ c ∈ digits, c.isDigit = true) ∧ Nat.ofDigitChars 10 digits 0 = number

theorem depth?_eq_some {text : String} {depth : Nat} (asked : depth? text = some depth) :
    Spells text depth ∧ 1 ≤ depth ∧ depth ≤ depthCeiling := by
  obtain ⟨number, read, within⟩ := Option.bind_eq_some_iff.mp asked
  split at within
  case isFalse => cases within
  case isTrue range =>
    cases within
    refine ⟨?_, by omega, by omega⟩
    unfold number? at read
    generalize split : Number.signed text.toList = parts at read
    rcases parts with ⟨negative, digits⟩
    dsimp only at read
    split at read
    case isTrue => cases read
    case isFalse some =>
      obtain ⟨whole, lifted, rfl⟩ := Option.map_eq_some_iff.mp read
      obtain ⟨size, value, same⟩ := Option.bind_eq_some_iff.mp lifted
      cases same
      have all := Number.isDigit_of_digitsIn? value
      rw [Number.digitsIn?_of_isDigit all] at value
      cases value
      cases negative with
      | true =>
        rw [if_pos rfl] at range
        omega
      | false => exact ⟨digits, Number.of_signed_false split, by simpa using some, all, by simp⟩

/-- The depths that the arguments of a run ask for, in order. -/
def depthsAsked : List String → List String
  | "--trace" :: _ :: rest => depthsAsked rest
  | "--max-depth" :: depth :: rest => depth :: depthsAsked rest
  | _ :: rest => depthsAsked rest
  | [] => []

theorem RunOptions.take_maxDepth (arguments : List String) (options : RunOptions)
    {result : RunOptions} (taken : RunOptions.take arguments options = .ok result) :
    (∀ text, (depthsAsked arguments).getLast? = some text →
      ∃ depth, depth? text = some depth ∧ result.maxDepth = some depth) ∧
    (depthsAsked arguments = [] → result.maxDepth = options.maxDepth) := by
  fun_induction RunOptions.take arguments options with
  | case1 options =>
    cases taken
    exact ⟨fun text none => (by cases none), fun _ => rfl⟩
  | case2 rest options ih => exact ih taken
  | case3 path rest options ih => exact ih taken
  | case4 text rest options depth read ih =>
    obtain ⟨later, nothing⟩ := ih taken
    rw [depthsAsked]
    refine ⟨fun last isLast => ?_, fun none => by cases none⟩
    cases others : depthsAsked rest with
    | nil =>
      rw [others] at isLast
      cases isLast
      exact ⟨depth, read, nothing others⟩
    | cons first more =>
      rw [others, List.getLast?_cons_cons, ← others] at isLast
      exact later last isLast
  | case5 text rest options unread => cases taken
  | case6 argument rest options pretty trace depth ih =>
    rw [depthsAsked]
    · obtain ⟨later, nothing⟩ := ih taken
      refine ⟨later, fun none => (nothing none).trans ?_⟩
      split <;> rfl
    · exact trace
    · exact depth

/-! ## Runs that are executed -/

def RunOptions.depthUnder (options : RunOptions) (config : Config) : Int :=
  match options.maxDepth with
  | some maxDepth => maxDepth
  | none => config.maxDepth

theorem RunOptions.runtime_settings (options : RunOptions) (runId : String) (config : Config) :
    (options.runtime runId config).settings =
      ⟨effectiveDepth (options.depthUnder config), false, runId⟩ := by
  unfold RunOptions.runtime RunOptions.depthUnder
  cases options.maxDepth <;> rfl

/-- The report of an execution: no other ends like this. -/
def Report.Executed (report : Report) : Prop := report.exit = .success ∨ report.exit = .runtime

theorem Report.not_executed_usage {report : Report} (fails : report.exit = .usage) :
    ¬ report.Executed := by
  rintro (succeeds | failed)
  · cases fails.symm.trans succeeds
  · cases fails.symm.trans failed

theorem Report.traced_executed {report : Report} {trace : String}
    {written : Except FileError Unit} :
    (report.traced trace written).Executed ↔ report.Executed := by
  rw [Executed, traced_exit, ← Executed]

theorem reportRun_executed {pretty : Bool} {ran : Except (List Diagnostic) Execution}
    (executed : (reportRun pretty ran).Executed) : ∃ execution, ran = .ok execution := by
  cases ran with
  | ok execution => exact ⟨execution, rfl⟩
  | error diagnostics => rcases executed with same | same <;> cases same

theorem executed_reportRun (pretty : Bool) (execution : Execution) :
    (reportRun pretty (.ok execution)).Executed := by
  cases failed : execution.error with
  | none => exact .inl (by simp [reportRun, failed, Report.ok])
  | some error => exact .inr (by simp [reportRun, failed, Report.diagnosed, Report.fail])

inductive ShowsDepth (depth : Int) : String → Prop
  | json (rest : String) :
    ShowsDepth depth ("\x7b\n" ++ ("  \"maxDepth\": " ++ toString depth ++ ",\n" ++ rest))
  | document (source rest : String) :
    ShowsDepth depth ("# " ++ source ++ "\n" ++ ("maxDepth: " ++ toString depth ++ "\n" ++ rest))

theorem configJson_shows (path : String) (config : Config) :
    ShowsDepth config.maxDepth (configJson path config) := by
  have key : "  " ++ Text.json "maxDepth" ++ ": " = "  \"maxDepth\": " := by
    rw [Text.json, String.foldl_eq_foldl_toList]
    rfl
  simp only [configJson, List.map_cons, key, Text.join, String.intercalate_cons_cons]
  rw [String.append_assoc, String.append_assoc]
  exact .json _

theorem written_shows {config : Config} (some : config.maxDepth ≠ 0) :
    ∃ rest, config.written = "maxDepth: " ++ toString config.maxDepth ++ "\n" ++ rest := by
  unfold Config.written
  rw [if_neg some]
  simp only [String.append_assoc]
  refine ⟨_, if_neg ?_⟩
  simp

theorem effectiveDepth_of_inRange {depth : Nat} (least : 1 ≤ depth) (most : depth ≤ depthCeiling) :
    effectiveDepth depth = depth := by
  unfold effectiveDepth
  rw [if_neg (by omega), Int.toNat_natCast, Nat.min_eq_left most]

/-- The depth for a run can be used as it is, whether it is asked for or configured. -/
theorem RunOptions.depthUnder_inRange {arguments : List String} {options : RunOptions}
    (usable : RunOptions.take arguments ⟨"", false, "", none⟩ = .ok options) {config : Config}
    (inRange : 1 ≤ config.maxDepth ∧ config.maxDepth ≤ depthCeiling) :
    ∃ limit : Nat, options.depthUnder config = limit ∧ 1 ≤ limit ∧ limit ≤ depthCeiling ∧
      (∀ text, (depthsAsked arguments).getLast? = some text → Spells text limit) ∧
      (depthsAsked arguments = [] → config.maxDepth = limit) := by
  obtain ⟨last, nothing⟩ := RunOptions.take_maxDepth arguments _ usable
  cases asked : (depthsAsked arguments).getLast? with
  | none =>
    have none : depthsAsked arguments = [] := List.getLast?_eq_none_iff.mp asked
    refine ⟨config.maxDepth.toNat, ?_, by omega, by omega, fun text some => (by cases some), ?_⟩
    · rw [RunOptions.depthUnder, nothing none]
      dsimp only
      omega
    · omega
  | some text =>
    obtain ⟨depth, read, taken⟩ := last text asked
    obtain ⟨spelled, least, most⟩ := depth?_eq_some read
    refine ⟨depth, ?_, least, most, fun other same => ?_, fun none => ?_⟩
    · rw [RunOptions.depthUnder, taken]
    · cases same
      exact spelled
    · rw [none] at asked
      cases asked

section Commands
variable [Yaml.Library] {σ : Type} (store : FileStore σ) (input : List UInt8) (files : σ)
  (context : Context)

theorem runSource_executed {runtime : Runtime}
    (alone : runtime.scope = none ∧ runtime.tracing = false) {trace : String} {pretty : Bool}
    {source : List UInt8 × String}
    (executed :
      ((runSource runtime trace pretty source).runIn store input files).value.Executed) :
    ∃ program tracing written, readProgram source.2 source.1 = .ok program ∧
      (tracing = false → written = .ok ()) ∧
      ((runSource runtime trace pretty source).runIn store input files).value =
        (reportRun pretty (.ok (program.execute { runtime.settings with tracing } Scope.empty
          0))).traced trace written := by
  by_cases opened : trace = "" ∨ ∃ after, store.write files trace [] = .ok after
  · obtain ⟨tracing, written, silent, report⟩ :=
      runSource_opened store input files pretty alone opened
    rw [report, Report.traced_executed] at executed
    rw [report]
    obtain ⟨execution, ran⟩ := reportRun_executed executed
    unfold runDocument at ran ⊢
    cases read : readProgram source.2 source.1 with
    | error diagnostics =>
      rw [read] at ran
      cases ran
    | ok program => exact ⟨program, tracing, written, rfl, silent, rfl⟩
  · exact absurd executed
      (Report.not_executed_usage (runSource_unopened store input files pretty opened))

theorem run_executed {arguments : List String}
    (executed : (reportIn store input files context ("run" :: arguments)).Executed) :
    ∃ options config source program tracing written,
      RunOptions.take arguments ⟨"", false, "", none⟩ = .ok options ∧
      ((Config.load context.home context.project).runIn store input files).value.config =
        .ok config ∧
      ((readSource options.file).runIn store input files).value = some source ∧
      readProgram source.2 source.1 = .ok program ∧
      (tracing = false → written = .ok ()) ∧
      reportIn store input files context ("run" :: arguments) =
        (reportRun (options.pretty || config.pretty)
          (.ok (program.execute ⟨effectiveDepth (options.depthUnder config), tracing, context.runId⟩
            Scope.empty 0))).traced (options.traceUnder config) written := by
  have stays : ((Config.load context.home context.project).runIn store input files).left =
      files :=
    Config.loadFirst_left store input files _
  generalize reported : reportIn store input files context ("run" :: arguments) = report
    at executed ⊢
  have refused {other : Report} (same : other = report) (fails : other.exit = .usage) : False :=
    Report.not_executed_usage (same ▸ fails) executed
  simp only [reportIn, command, runCommand] at reported
  split at reported
  · exact (refused reported rfl).elim
  · rename_i options usable
    split at reported
    · exact (refused reported rfl).elim
    · simp only [Task.runIn_bind, stays] at reported
      split at reported
      · exact (refused reported rfl).elim
      · rename_i config configured
        simp only [Task.runIn_bind, readSource_left] at reported
        split at reported
        · exact (refused reported rfl).elim
        · rename_i source readable
          subst reported
          obtain ⟨program, tracing, written, read, silent, report⟩ :=
            runSource_executed store input files (options.runtime_alone context.runId config)
              executed
          rw [options.runtime_settings] at report
          exact ⟨options, config, source, program, tracing, written, usable, configured, readable,
            read, silent, report⟩

theorem config_shows {config : Config} (arguments : List String)
    (configured :
      ((Config.load context.home context.project).runIn store input files).value.config =
        .ok config) (some : config.maxDepth ≠ 0) :
    ShowsDepth config.maxDepth
      (reportIn store input files context ("config" :: arguments)).said.out := by
  simp only [reportIn, command, configCommand, Task.runIn_bind, configured]
  split
  · exact configJson_shows _ config
  · obtain ⟨rest, shown⟩ := written_shows some
    rw [shown]
    exact .document _ rest

/-- A run with these arguments executes the program of its source under the limit, and a call that
is refused for its depth is reported with that number. -/
structure ExecutesUnder (limit : Nat) (arguments : List String) : Prop where
  asked : ∀ text, (depthsAsked arguments).getLast? = some text → Spells text limit
  unclamped : 1 ≤ limit ∧ limit ≤ depthCeiling ∧ effectiveDepth limit = limit
  executes : ∃ options source program tracing pretty trace written,
    RunOptions.take arguments ⟨"", false, "", none⟩ = .ok options ∧
    ((readSource options.file).runIn store input files).value = some source ∧
    readProgram source.2 source.1 = .ok program ∧
    let execution := program.execute ⟨limit, tracing, context.runId⟩ Scope.empty 0
    reportIn store input files context ("run" :: arguments) =
      (reportRun pretty (.ok execution)).traced trace written ∧
    (tracing = false → written = .ok ()) ∧
    execution.stats.maxSeen ≤ limit ∧
    ∀ error, execution.error = some error → error.failure.code = .stackOverflow →
      execution.stats.maxSeen = limit ∧
        error.message = "call stack exhausted (max depth " ++ toString limit ++ ")"

end Commands

end Cli

/-- The limit of a run is the depth that it asks for last, or else the configured one, in any store
of files, at any home and with any arguments.

The configuration is searched for in the file of the project, then in that of the user if there is a
home: the first path with something there decides, be it by an error, and only where nothing is
there the usual configuration counts.  The depth of a configuration is from 1 up to the ceiling.  A
run ends like an execution exactly if it comes to one, which is then under the last depth that the
arguments ask for, or else under the one that the command for the configuration shows; no bound
changes that number, and it is the one named where a call is refused for its depth. -/
theorem configured_depth_enforced [Yaml.Library] [Yaml.FailsUnread] {σ : Type}
    (store : FileStore σ) (input : List UInt8) (files : σ) (context : Cli.Context) :
    let search := (Config.load context.home context.project).runIn store input files
    Config.Searches (store.find files)
      (Config.projectPath context.project :: (context.home.map Config.userPath).toList)
      search.asked search.value ∧
    ∀ arguments, (Cli.reportIn store input files context ("run" :: arguments)).Executed ↔
      ∃ (config : Config) (limit : Nat), search.value.config = .ok config ∧
        (∀ others, Cli.ShowsDepth config.maxDepth
          (Cli.reportIn store input files context ("config" :: others)).said.out) ∧
        (Cli.depthsAsked arguments = [] → config.maxDepth = limit) ∧
        Cli.ExecutesUnder store input files context limit arguments := by
  intro search
  have searches := Config.loadFirst_searches store input files
    (Config.projectPath context.project :: (context.home.map Config.userPath).toList)
  refine ⟨searches, fun arguments => ⟨fun executed => ?_, ?_⟩⟩
  · obtain ⟨options, config, source, program, tracing, written, usable, configured, readable, read,
      silent, report⟩ := Cli.run_executed store input files context executed
    have inRange := searches.inRange config configured
    obtain ⟨limit, under, least, most, asked, otherwise⟩ :=
      Cli.RunOptions.depthUnder_inRange usable inRange
    have unclamped := Cli.effectiveDepth_of_inRange least most
    rw [under, unclamped] at report
    refine ⟨config, limit, configured, fun others => ?_, otherwise, asked, ⟨least, most, unclamped⟩,
      options, source, program, tracing, _, _, written, usable, readable, read, report, silent, ?_⟩
    · exact Cli.config_shows store input files context others configured (by omega)
    · exact program.execute_overflow _ Scope.empty 0
  · rintro ⟨config, limit, _, _, _, executes⟩
    obtain ⟨options, source, program, tracing, pretty, trace, written, _, _, _, report, _⟩ :=
      executes.executes
    rw [report, Cli.Report.traced_executed]
    exact Cli.executed_reportRun pretty _

namespace Cli

def settledProject : Files :=
  ((Files.empty.addFile [".micro.yaml"] (Text.toBytes "'pretty': 'yes'\n")).addFile
    ["home", ".micro", "config.yaml"] (Text.toBytes "'pretty': 'no'\n")).addFile ["notes"] []

def settledContext : Context := ⟨some "home", "", ""⟩

def endlessCalls : List UInt8 := Text.toBytes
  ("'call':\n  'let': 'f'\n  'value':\n    'fn': []\n"
    ++ "    'body':\n    - 'call':\n        'get': 'f'\n")

def endlessProgram : Program :=
  let place (line column : Nat) : Span := ⟨"<stdin>", line, column⟩
  ⟨place 1 1, [.call (place 1 1) (.define (place 2 3) "f"
    (.function (place 4 5) [] [.call (place 6 7) (.read (place 7 9) "f") []])) []]⟩

theorem endlessCalls_read : readProgram "<stdin>" endlessCalls = .ok endlessProgram := by
  decide +kernel

theorem settledContext_configured :
    ((Config.load (some "home") "").runIn (.folder "") endlessCalls settledProject).value.config =
      .ok ⟨10000, "", true⟩ := by
  have found : ((Config.load (some "home") "").runIn (.folder "") endlessCalls
      settledProject).value.config.toOption = some ⟨10000, "", true⟩ := by
    decide +kernel
  generalize ((Config.load (some "home") "").runIn (.folder "") endlessCalls
    settledProject).value.config = loaded at found ⊢
  cases loaded <;> cases found
  rfl

theorem settledContext_executed (arguments : List String) (options : RunOptions)
    (usable : RunOptions.take arguments ⟨"", false, "", none⟩ = .ok options)
    (named : options.file = "-") (untraced : options.trace = "") :
    (reportIn (.folder "") endlessCalls settledProject settledContext
      ("run" :: arguments)).Executed := by
  have runs : RunsSource (.folder "") endlessCalls settledProject settledContext arguments
      (endlessCalls, "<stdin>") := by
    refine ⟨options, _, usable, ?_, settledContext_configured, ?_, .inl ?_⟩
    · rw [named]
      decide
    · rw [named]
      rfl
    · rw [RunOptions.traceUnder, untraced]
      rfl
  obtain ⟨settings, pretty, trace, written, report⟩ := runs.report
  rw [report, runDocument, endlessCalls_read, Report.traced_executed]
  exact executed_reportRun pretty _

end Cli

/-- Without a depth the project's counts, and with two the last, at which endless calls end.  Where
the folder of a project is a file, the search ends there with an error, although the user has a
configuration. -/
theorem configured_depth_enforced_inProject :
    let store := FileStore.folder ""
    let arguments := ["--max-depth", "5", "-", "--max-depth", "+03"]
    let lost := (Config.load (some "home") "notes").runIn store Cli.endlessCalls Cli.settledProject
    Cli.ExecutesUnder store Cli.endlessCalls Cli.settledProject Cli.settledContext 10000 ["-"] ∧
    Cli.ExecutesUnder store Cli.endlessCalls Cli.settledProject Cli.settledContext 3 arguments ∧
    (∃ pretty trace written,
      Cli.reportIn store Cli.endlessCalls Cli.settledProject Cli.settledContext
          ("run" :: arguments) =
        (Cli.Report.diagnosed .runtime [⟨"E_STACK_OVERFLOW", "call stack exhausted (max depth 3)",
          some ⟨"<stdin>", 6, 7⟩, "", ""⟩] pretty).traced trace written) ∧
    lost.asked = ["notes/.micro.yaml"] ∧ lost.value.path = "notes/.micro.yaml" ∧
    ∃ error, lost.value.config = .error error := by
  intro store arguments lost
  have depths := (configured_depth_enforced store Cli.endlessCalls Cli.settledProject
    Cli.settledContext).2
  have searches := (configured_depth_enforced store Cli.endlessCalls Cli.settledProject
    ⟨some "home", "notes", ""⟩).1
  have underThree : Cli.ExecutesUnder store Cli.endlessCalls Cli.settledProject Cli.settledContext 3
      arguments := by
    obtain ⟨config, limit, _, _, _, executes⟩ :=
      (depths _).mp (Cli.settledContext_executed arguments ⟨"-", false, "", some 3⟩ rfl rfl rfl)
    obtain ⟨digits, spelled, _, allDigits, value⟩ := executes.asked "+03" rfl
    rcases spelled with rfl | spelled
    · exact absurd (allDigits '+' (by decide)) (by decide)
    · cases (List.cons.inj spelled).2
      cases value
      exact executes
  refine ⟨?_, underThree, ?_, ?_⟩
  · obtain ⟨config, limit, configured, _, otherwise, executes⟩ :=
      (depths _).mp (Cli.settledContext_executed ["-"] ⟨"-", false, "", none⟩ rfl rfl rfl)
    cases configured.symm.trans Cli.settledContext_configured
    have limited := otherwise rfl
    dsimp only at limited
    obtain rfl : limit = 10000 := by omega
    exact executes
  · obtain ⟨options, source, program, tracing, pretty, trace, written, usable, readable, read,
      report, _, _, refusal⟩ := underThree.executes
    cases usable
    cases readable
    cases read.symm.trans Cli.endlessCalls_read
    have fails : (Cli.endlessProgram.execute ⟨3, tracing, ""⟩ Scope.empty 0).error =
        some ⟨.tooDeep 3, some ⟨"<stdin>", 6, 7⟩⟩ := by
      simp only [Cli.endlessProgram, Program.execute, executeFrom, Expr.evaluate_eq_eval]
      cases tracing <;> rfl
    have message := (refusal _ fails rfl).2
    refine ⟨pretty, trace, written, report.trans ?_⟩
    dsimp only [Cli.reportRun, Cli.settledContext]
    rw [fails]
    dsimp only [Problem.ofEvalError, Problem.diagnostics, Problem.cause]
    rw [message]
    rfl
  · have below : store.find Cli.settledProject "notes/.micro.yaml" = .error .notFolder := by
      decide
    obtain ⟨asked, path, _, unfit⟩ := searches.stops [] "notes/.micro.yaml" _ rfl (by simp) (by
      rw [below]
      decide)
    rw [below] at unfit
    exact ⟨asked, path, unfit (.unopened (by decide))⟩

end Sapling
