import Sapling.Config.Load

/-!
# Searching for the configuration

The files that may hold the configuration are tried in order.  The search goes on only from a file
that is not there; the first one that is there decides, with what it holds or with an error, and no
later one is looked at (`loadFirst_searches`).  What a file that is there can come to is said in
full by `Usable`: a depth that can be used is from 1 up to the ceiling, and none means the usual
one.

A document with a name of no setting in it cannot be used (`ofDocument_unknown`): whatever else
there is to read, a complaint that was made is never dropped.
-/

set_option autoImplicit false

namespace Sapling

namespace Yaml

/-- A library that takes nothing that could not be read for a document. -/
class FailsUnread [Library] : Prop where
  parse_error (reason : String) : ∃ error, Library.parse (.error reason) = .error error

instance : FailsUnread where
  parse_error _ := ⟨_, rfl⟩

end Yaml

namespace Config

open Yaml (Node)

/-! ## Complaints are kept -/

def Draft.Faulty (draft : Draft) : Prop := draft.complaints ≠ []

theorem bind_eq_ok {ε α β : Type} {x : Except ε α} {f : α → Except ε β} {result : β}
    (succeeds : x >>= f = .ok result) : ∃ value, x = .ok value ∧ f value = .ok result := by
  cases x with
  | error error => cases succeeds
  | ok value => exact ⟨value, rfl, succeeds⟩

theorem foldlM_keeps {ε α β : Type} {step : β → α → Except ε β} {p : β → Prop}
    (keeps : ∀ state item next, step state item = .ok next → p state → p next)
    (items : List α) :
    ∀ {state last : β}, items.foldlM step state = .ok last → p state → p last := by
  induction items with
  | nil =>
    intro state last ran holds
    cases ran
    exact holds
  | cons item rest ih =>
    intro state last ran holds
    rw [List.foldlM_cons] at ran
    obtain ⟨next, first, others⟩ := bind_eq_ok ran
    exact ih others (keeps state item next first holds)

section Faults
variable {draft next : Draft}

theorem Draft.complain_faulty (draft : Draft) (complaint : Complaint) :
    (draft.complain complaint).Faulty := List.cons_ne_nil _ _

theorem complainAll_faulty (complaints : List Complaint)
    (some : complaints ≠ [] ∨ draft.Faulty) : (complainAll draft complaints).Faulty := by
  induction complaints generalizing draft with
  | nil => exact some.resolve_left (absurd rfl)
  | cons complaint rest ih => exact ih (.inr (draft.complain_faulty complaint))

theorem Draft.visit_faulty {inAlias : Bool} (visited : draft.visit inAlias = .ok next) :
    draft.Faulty → next.Faulty := by
  simp only [Draft.visit] at visited
  generalize draft.aliased + (if inAlias = true then 1 else 0) = aliased at visited
  split at visited
  · cases visited
  · cases visited
    exact id

theorem Draft.visitNode_faulty {node : Node} {inAlias : Bool}
    (visited : draft.visitNode node inAlias = .ok next) : draft.Faulty → next.Faulty := by
  obtain ⟨middle, first, second⟩ := bind_eq_ok visited
  split at second
  · exact fun faulty => Draft.visit_faulty second (Draft.visit_faulty first faulty)
  · cases second
    exact Draft.visit_faulty first

theorem visitSource_faulty {node : Node} {active entered : List Yaml.Mark}
    (visited : visitSource node active draft = .ok (entered, next)) :
    draft.Faulty → next.Faulty := by
  intro faulty
  obtain ⟨first, firstVisit, visited⟩ := bind_eq_ok visited
  obtain ⟨marks, entering, visited⟩ := bind_eq_ok visited
  split at visited
  · obtain ⟨second, secondVisit, visited⟩ := bind_eq_ok visited
    cases visited
    exact Draft.visit_faulty secondVisit (Draft.visit_faulty firstVisit faulty)
  · cases visited
    exact Draft.visit_faulty firstVisit faulty

theorem takeSources_faulty
    {step : Draft × Option (List String) → Node → Except ReadError (Draft × Option (List String))}
    (keeps : ∀ read node after, step read node = .ok after → read.1.Faulty → after.1.Faulty)
    {sources : List Node} {names : Option (List String)} {own : Option (List String)}
    {result : Draft × Option (List String)}
    (taken : (do
      let read ← sources.foldlM step (draft, names)
      return (read.1, own.bind fun _ => read.2)) = .ok result) :
    draft.Faulty → result.1.Faulty := by
  obtain ⟨read, merging, taken⟩ := bind_eq_ok taken
  cases taken
  exact foldlM_keeps (p := fun read => Draft.Faulty read.1) keeps sources merging

variable [Yaml.Library]

theorem takeValue_faulty {setting : Setting} {node : Node}
    (taken : takeValue setting node draft = .ok next) : draft.Faulty → next.Faulty := by
  intro faulty
  unfold takeValue at taken
  split at taken
  · obtain ⟨value, _, taken⟩ := bind_eq_ok taken
    split at taken
    · cases taken
      exact faulty
    · split at taken
      · cases taken
        exact faulty
      · cases taken
        exact draft.complain_faulty _
  · cases taken
    exact complainAll_faulty _ (.inr faulty)

theorem keyName_faulty {key : Node} {name : Option String}
    (read : keyName key draft = .ok (name, next)) : draft.Faulty → next.Faulty := by
  intro faulty
  unfold keyName at read
  split at read
  · obtain ⟨value, _, read⟩ := bind_eq_ok read
    split at read <;> cases read <;> exact faulty
  · cases read
    exact complainAll_faulty _ (.inr faulty)

/-- The key spells a name that no setting has. -/
def Unknown (anchored : List Node) (key : Node) : Prop :=
  ∃ name, (∀ draft, keyName (resolved anchored key) draft = .ok (some name, draft)) ∧
    Setting.ofName? name = none

/-- An entry leaves faults as they are, and one of no setting makes one.  Where no names count as
there, none do after it. -/
theorem takeEntry_keeps {anchored : List Node} {inAlias : Bool} {state after : EntryState}
    {entry : Node × Node} (taken : takeEntry anchored inAlias state entry = .ok after) :
    (state.names = none → after.names = none) ∧
      (state.draft.Faulty ∨ state.names = none ∧ Unknown anchored entry.1 →
        after.draft.Faulty) := by
  obtain ⟨visited, first, taken⟩ := bind_eq_ok taken
  obtain ⟨⟨name?, named⟩, read, taken⟩ := bind_eq_ok taken
  dsimp only at taken
  have later (fault : state.draft.Faulty ∨ state.names = none ∧ Unknown anchored entry.1) :
      named.Faulty ∨
        state.names = none ∧ ∃ name, name? = some name ∧ Setting.ofName? name = none := by
    rcases fault with faulty | ⟨nothing, name, spelled, unknown⟩
    · exact .inl (keyName_faulty read (Draft.visitNode_faulty first faulty))
    · rw [spelled] at read
      cases read
      exact .inr ⟨nothing, name, rfl, unknown⟩
  split at taken
  · cases taken
    exact ⟨id, fun fault => (later fault).resolve_right (by simp)⟩
  · rename_i name
    split at taken
    · rename_i present
      cases taken
      refine ⟨id, fun fault => (later fault).resolve_right ?_⟩
      rintro ⟨nothing, _⟩
      simp [nothing] at present
    · split at taken
      · cases taken
        exact ⟨fun nothing => by simp [nothing], fun _ => named.complain_faulty _⟩
      · rename_i setting known
        split at taken
        · cases taken
          exact ⟨fun nothing => by simp [nothing], fun _ => named.complain_faulty _⟩
        · obtain ⟨second, visited, taken⟩ := bind_eq_ok taken
          obtain ⟨third, valued, taken⟩ := bind_eq_ok taken
          cases taken
          refine ⟨fun nothing => by simp [nothing], fun fault => ?_⟩
          refine takeValue_faulty valued (Draft.visitNode_faulty visited ?_)
          refine (later fault).resolve_right ?_
          rintro ⟨_, other, same, unknown⟩
          cases same
          rw [unknown] at known
          cases known

theorem takeEntries_faulty {anchored : List Node} {inAlias : Bool} {entry : Node × Node}
    (unknown : Unknown anchored entry.1) {entries : List (Node × Node)} (member : entry ∈ entries) :
    ∀ {state after : EntryState}, state.names = none →
      entries.foldlM (takeEntry anchored inAlias) state = .ok after → after.draft.Faulty := by
  induction entries with
  | nil => cases member
  | cons first rest ih =>
    intro state after nothing taken
    rw [List.foldlM_cons] at taken
    obtain ⟨next, firstTaken, restTaken⟩ := bind_eq_ok taken
    obtain ⟨names, faulty⟩ := takeEntry_keeps firstTaken
    rcases List.mem_cons.mp member with rfl | later
    · exact foldlM_keeps (p := fun state => (EntryState.draft state).Faulty)
        (fun _ _ _ taken holds => (takeEntry_keeps taken).2 (.inl holds)) rest restTaken
        (faulty (.inr ⟨nothing, unknown⟩))
    · exact ih later (names nothing) restTaken

theorem ownNames_faulty {anchored : List Node} {inAlias : Bool} {entries : List (Node × Node)}
    {names : List String} (read : ownNames anchored inAlias entries draft = .ok (names, next)) :
    draft.Faulty → next.Faulty := by
  obtain ⟨visited, visits, read⟩ := bind_eq_ok read
  cases read
  exact foldlM_keeps (fun _ _ _ visited => Draft.visitNode_faulty visited) entries visits

def TakesFaults (anchored : List Node) (fuel : Nat) : Prop :=
  ∀ {active : List Yaml.Mark} {entries : List (Node × Node)} {names : Option (List String)}
    {draft : Draft} {read : Draft × Option (List String)},
    takeMapping anchored fuel active entries names draft = .ok read → draft.Faulty → read.1.Faulty

theorem takeSource_faulty {anchored : List Node} {fuel : Nat} (nested : TakesFaults anchored fuel)
    {active : List Yaml.Mark} {node : Node} {read after : Draft × Option (List String)}
    (taken : (match resolved anchored node with
      | .mapping _ _ entries => do
        let (active, draft) ← visitSource node active read.1
        takeMapping anchored fuel active entries read.2 draft
      | _ => .error .notMapping) = .ok after) :
    read.1.Faulty → after.1.Faulty := by
  intro faulty
  split at taken
  · obtain ⟨⟨entered, visited⟩, visiting, taken⟩ := bind_eq_ok taken
    exact nested taken (visitSource_faulty visiting faulty)
  · cases taken

/-- A mapping has repeated keys, which is a fault, or its own entries are taken and their faults
stay whatever is merged. -/
theorem takeMapping_own {anchored : List Node} {fuel : Nat} (nested : TakesFaults anchored fuel)
    {active : List Yaml.Mark} {entries : List (Node × Node)} {names : Option (List String)}
    {read : Draft × Option (List String)}
    (taken : takeMapping anchored (fuel + 1) active entries names draft = .ok read) :
    read.1.Faulty ∨
      ∃ state, (entries.filter fun entry => !isMerge entry.1).foldlM
          (takeEntry anchored (!active.isEmpty)) ⟨draft, names, []⟩ = .ok state ∧
        (state.draft.Faulty → read.1.Faulty) := by
  rw [takeMapping] at taken
  split at taken
  · cases taken
    exact .inl (complainAll_faulty _ (.inl (List.cons_ne_nil _ _)))
  · obtain ⟨state, own, taken⟩ := bind_eq_ok taken
    refine .inr ⟨state, own, fun faulty => ?_⟩
    split at taken
    · cases taken
      exact faulty
    · -- what is merged comes after the names that are there have been counted
      dsimp only at taken
      split at taken
      · obtain ⟨_, counting, taken⟩ := bind_eq_ok taken
        cases counting
        refine takeSources_faulty ?_ taken faulty
        exact fun _ _ _ => takeSource_faulty nested
      · obtain ⟨_, counting, taken⟩ := bind_eq_ok taken
        refine takeSources_faulty ?_ taken (ownNames_faulty counting faulty)
        exact fun _ _ _ => takeSource_faulty nested

theorem takeMapping_faulty (anchored : List Node) (fuel : Nat) : TakesFaults anchored fuel := by
  induction fuel with
  | zero =>
    intro active entries names draft read taken
    cases taken
  | succ fuel ih =>
    intro active entries names draft read taken faulty
    rcases takeMapping_own ih taken with already | ⟨state, own, stays⟩
    · exact already
    · exact stays (foldlM_keeps (p := fun state => (EntryState.draft state).Faulty)
        (fun _ _ _ taken holds => (takeEntry_keeps taken).2 (.inl holds)) _ own faulty)

theorem takeMapping_unknown {anchored : List Node} {fuel : Nat} {active : List Yaml.Mark}
    {entries : List (Node × Node)} {entry : Node × Node} (member : entry ∈ entries)
    (own : isMerge entry.1 = false) (unknown : Unknown anchored entry.1) {draft : Draft}
    {read : Draft × Option (List String)}
    (taken : takeMapping anchored (fuel + 1) active entries none draft = .ok read) :
    read.1.Faulty := by
  rcases takeMapping_own (takeMapping_faulty anchored fuel) taken with
    already | ⟨state, entered, stays⟩
  · exact already
  · have among : entry ∈ entries.filter fun entry => !isMerge entry.1 :=
      List.mem_filter.mpr ⟨member, by rw [own]; rfl⟩
    exact stays (takeEntries_faulty unknown among rfl entered)

theorem ofDocument_unknown {document : Yaml.Document} {mark : Yaml.Mark} {tag : String}
    {entries : List (Node × Node)} (root : document.root = .mapping mark tag entries)
    {entry : Node × Node} (member : entry ∈ entries) (own : isMerge entry.1 = false)
    (unknown : Unknown document.anchored entry.1) (config : Config) :
    ofDocument document ≠ .ok config := by
  intro read
  obtain ⟨visited, _, read⟩ := bind_eq_ok read
  obtain ⟨start, _, read⟩ := bind_eq_ok read
  rw [root] at read
  dsimp only at read
  obtain ⟨draft, mapped, read⟩ := bind_eq_ok read
  generalize ran : takeMapping _ _ _ _ _ _ = taken at mapped
  cases taken with
  | error error => cases mapped
  | ok mapping =>
    cases mapped
    have faulty : mapping.1.Faulty := takeMapping_unknown member own unknown ran
    split at read
    · rename_i none
      exact faulty none
    · cases read

end Faults

/-! ## Files that can be used -/

theorem bounded_eq_ok (read config : Config) :
    read.bounded = .ok config ↔
      0 ≤ read.maxDepth ∧ read.maxDepth ≤ depthCeiling ∧ config =
        { read with maxDepth := if read.maxDepth = 0 then usualDepth else read.maxDepth } := by
  unfold bounded
  split
  case isTrue negative => exact ⟨fun same => (by cases same), fun within => by omega⟩
  case isFalse natural =>
    split
    case isTrue deep => exact ⟨fun same => (by cases same), fun within => by omega⟩
    case isFalse shallow =>
      rw [Int.not_lt] at natural shallow
      simp only [natural, shallow, true_and]
      split <;> rw [Except.ok.injEq, eq_comm]

variable [Yaml.Library]

/-- What a path leads to is a file with a configuration whose depth is no less than nothing and no
more than the ceiling; no depth stands for the usual one. -/
def Usable (found : Except FileError Entry) (config : Config) : Prop :=
  ∃ bytes read, found = .ok (.file bytes) ∧ ofInput (.ok bytes) = .ok read ∧
    0 ≤ read.maxDepth ∧ read.maxDepth ≤ depthCeiling ∧
    config = { read with maxDepth := if read.maxDepth = 0 then usualDepth else read.maxDepth }

/-- What is wrong with what a path leads to, apart from there being nothing. -/
inductive Unfit : Except FileError Entry → Prop
  | unopened {error : FileError} (there : error ≠ .notFound) : Unfit (.error error)
  | folder : Unfit (.ok .folder)
  | malformed {bytes : List UInt8} {error : Yaml.Error}
    (failed : Yaml.Library.parse (.ok bytes) = .error error) :
    Unfit (.ok (.file bytes))
  | unknownKey {bytes : List UInt8} {document : Yaml.Document} {mark : Yaml.Mark} {tag : String}
    {entries : List (Node × Node)} {entry : Node × Node}
    (read : Yaml.Library.parse (.ok bytes) = .ok (some document))
    (root : document.root = .mapping mark tag entries) (member : entry ∈ entries)
    (own : isMerge entry.1 = false) (unknown : Unknown document.anchored entry.1) :
    Unfit (.ok (.file bytes))
  | outOfRange {bytes : List UInt8} {config : Config}
    (read : ofInput (.ok bytes) = .ok config)
    (outside : config.maxDepth < 0 ∨ config.maxDepth > depthCeiling) : Unfit (.ok (.file bytes))

theorem ofInput_folder [Yaml.FailsUnread] (path : String) :
    ∃ error, ofInput (inputOf path .folder) = .error error := by
  obtain ⟨error, failed⟩ := Yaml.FailsUnread.parse_error
    ("read " ++ path ++ ": " ++ FileError.isFolder.message)
  refine ⟨.document error, ?_⟩
  unfold ofInput inputOf
  rw [failed]

theorem ofFound_eq_ok [Yaml.FailsUnread] (path : String) (found : Except FileError Entry)
    (config : Config) :
    ofFound path found = .ok config ↔ Usable found config := by
  unfold ofFound
  constructor
  · intro loaded
    split at loaded
    · cases loaded
    · rename_i entry
      split at loaded
      · cases loaded
      · rename_i draft read
        cases entry with
        | folder =>
          obtain ⟨error, unread⟩ := ofInput_folder path
          cases unread.symm.trans read
        | file bytes => exact ⟨bytes, draft, rfl, read, (bounded_eq_ok draft config).mp loaded⟩
  · rintro ⟨bytes, draft, rfl, read, within⟩
    dsimp only [inputOf]
    rw [read]
    exact (bounded_eq_ok draft config).mpr within

theorem Unfit.not_usable {found : Except FileError Entry} (unfit : Unfit found) (config : Config) :
    ¬ Usable found config := by
  rintro ⟨bytes, read, rfl, same, least, most, _⟩
  cases unfit with
  | malformed failed =>
    unfold ofInput at same
    rw [failed] at same
    cases same
  | unknownKey read root member own unknown =>
    unfold ofInput at same
    rw [read] at same
    exact ofDocument_unknown root member own unknown _ same
  | outOfRange read outside =>
    rw [read] at same
    cases same
    omega

theorem Unfit.refused [Yaml.FailsUnread] {found : Except FileError Entry} (unfit : Unfit found)
    (path : String) :
    ∃ error, ofFound path found = .error error := by
  cases read : ofFound path found with
  | error error => exact ⟨error, rfl⟩
  | ok config => exact absurd ((ofFound_eq_ok path found config).mp read) (unfit.not_usable config)

theorem Usable.inRange {found : Except FileError Entry} {config : Config}
    (usable : Usable found config) : 1 ≤ config.maxDepth ∧ config.maxDepth ≤ depthCeiling := by
  obtain ⟨_, read, _, _, least, most, rfl⟩ := usable
  dsimp only
  split
  · decide
  · omega

/-! ## The search -/

/-- How files are searched: which paths are asked for, and what comes of it. -/
structure Searches (find : String → Except FileError Entry) (paths asked : List String)
    (loaded : Loaded) : Prop where
  /-- The first path with something there decides, and is the last to be asked for. -/
  stops : ∀ missing path later, paths = missing ++ path :: later →
    (∀ other ∈ missing, find other = .error .notFound) → find path ≠ .error .notFound →
    asked = missing ++ [path] ∧ loaded.path = path ∧
      (∀ config, loaded.config = .ok config ↔ Usable (find path) config) ∧
      (Unfit (find path) → ∃ error, loaded.config = .error error)
  exhausted : (∀ path ∈ paths, find path = .error .notFound) →
    asked = paths ∧ loaded = ⟨"", .ok usual⟩
  inRange : ∀ config, loaded.config = .ok config →
    1 ≤ config.maxDepth ∧ config.maxDepth ≤ depthCeiling

section Search
variable {σ : Type} (store : FileStore σ) (input : List UInt8) (files : σ)

theorem loadFirst_missing {path : String} (missing : store.find files path = .error .notFound)
    (rest : List String) :
    (loadFirst (path :: rest)).runIn store input files =
      let course := (loadFirst rest).runIn store input files
      { course with asked := path :: course.asked } := by
  simp only [loadFirst, Task.runIn_bind, Task.runIn_lookAt, missing]
  rfl

theorem loadFirst_found {path : String} (there : store.find files path ≠ .error .notFound)
    (rest : List String) :
    (loadFirst (path :: rest)).runIn store input files =
      ⟨⟨path, ofFound path (store.find files path)⟩, [path], files⟩ := by
  simp only [loadFirst, Task.runIn_bind, Task.runIn_lookAt]
  rfl

theorem loadFirst_left (paths : List String) :
    ((loadFirst paths).runIn store input files).left = files := by
  induction paths with
  | nil => rfl
  | cons path rest ih =>
    by_cases missing : store.find files path = .error .notFound
    · rw [loadFirst_missing store input files missing]
      exact ih
    · rw [loadFirst_found store input files missing]

theorem loadFirst_searches [Yaml.FailsUnread] (paths : List String) :
    let course := (loadFirst paths).runIn store input files
    Searches (store.find files) paths course.asked course.value := by
  induction paths with
  | nil =>
    refine ⟨fun missing path later none => ?_, fun _ => ⟨rfl, rfl⟩, fun config same => ?_⟩
    · simp at none
    · cases same
      decide
  | cons first rest ih =>
    by_cases nothing : store.find files first = .error .notFound
    · -- the search goes on as if there were only the rest
      rw [loadFirst_missing store input files nothing]
      refine ⟨fun missing path later same absent there => ?_, fun absent => ?_, ih.inRange⟩
      · cases missing with
        | nil =>
          cases same
          exact absurd nothing there
        | cons other missing =>
          cases same
          obtain ⟨asked, outcome⟩ := ih.stops missing path later rfl
            (fun other member => absent other (List.mem_cons_of_mem _ member)) there
          exact ⟨congrArg (first :: ·) asked, outcome⟩
      · obtain ⟨asked, outcome⟩ := ih.exhausted
          fun path member => absent path (List.mem_cons_of_mem _ member)
        exact ⟨congrArg (first :: ·) asked, outcome⟩
    · rw [loadFirst_found store input files nothing]
      refine ⟨fun missing path later same absent _ => ?_, fun absent => ?_, fun config same => ?_⟩
      · cases missing with
        | nil =>
          cases same
          exact ⟨rfl, rfl, ofFound_eq_ok first _, fun unfit => unfit.refused first⟩
        | cons other missing =>
          cases same
          exact absurd (absent first List.mem_cons_self) nothing
      · exact absurd (absent first List.mem_cons_self) nothing
      · exact ((ofFound_eq_ok first _ config).mp same).inRange

end Search

end Config

end Sapling
