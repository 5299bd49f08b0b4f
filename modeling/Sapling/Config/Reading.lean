import Sapling.Config
import Sapling.Text.Utf8

/-!
# Reading configurations

A configuration is a mapping from the names of settings to their values.  Values that do not fit
and names of no setting are all collected; some faults end the reading at once.  A merge key brings
in the entries of other mappings, for the names that are not there yet.
-/

set_option autoImplicit false

namespace Sapling.Config

open Yaml (Node Scalar)

variable [Yaml.Library]

inductive Complaint
  | repeatedKey (line : Nat) (key : String) (first : Nat)
  | repeatedSetting (line : Nat) (name : String)
  | unknownSetting (line : Nat) (name : String)
  | mismatch (line : Nat) (tag : String) (text : Option String) (type : String)
  deriving DecidableEq, Repr

inductive ReadError
  | document (error : Yaml.Error)
  | notMapping
  | badBinary
  | manyAliases
  | complaints (list : List Complaint)

/-- The text of a value in a complaint: a long one is cut, if need be inside a character. -/
def excerpt (text : String) : List UInt8 :=
  let bytes := Text.toBytes text
  if bytes.length > 10 then bytes.take 7 ++ Text.toBytes "..." else bytes

def Complaint.message : Complaint → List UInt8
  | repeatedKey line key first =>
    Text.toBytes ("line " ++ toString line ++ ": mapping key " ++ Text.quoted key
      ++ " already defined at line " ++ toString first)
  | repeatedSetting line name =>
    Text.toBytes ("line " ++ toString line ++ ": field " ++ name
      ++ " already set in type config.Config")
  | unknownSetting line name =>
    Text.toBytes ("line " ++ toString line ++ ": field " ++ name
      ++ " not found in type config.Config")
  | mismatch line tag text type =>
    let shown := match text with
      | some text => Text.toBytes " `" ++ excerpt text ++ Text.toBytes "`"
      | none => []
    Text.toBytes ("line " ++ toString line ++ ": cannot unmarshal " ++ tag) ++ shown
      ++ Text.toBytes (" into " ++ type)

def ReadError.message : ReadError → List UInt8
  | document error => Text.toBytes ("yaml: " ++ error.message)
  | notMapping => Text.toBytes "yaml: map merge requires map or sequence of maps as the value"
  | badBinary => Text.toBytes "yaml: !!binary value contains invalid base64 data"
  | manyAliases => Text.toBytes "yaml: document contains excessive aliasing"
  | .complaints list =>
    Text.toBytes "yaml: unmarshal errors:"
      ++ list.flatMap fun complaint => Text.toBytes "\n  " ++ complaint.message

/-! ## Binary values -/

def sextet? (c : Char) : Option Nat :=
  if c.isUpper then some (c.toNat - 65)
  else if c.isLower then some (c.toNat - 71)
  else if c.isDigit then some (c.toNat + 4)
  else if c = '+' then some 62
  else if c = '/' then some 63
  else none

def unpack : List Char → Option (List UInt8)
  | [] => some []
  | [a, b, '=', '='] => do
    let n := (← sextet? a) * 64 + (← sextet? b)
    return [(n / 16).toUInt8]
  | [a, b, c, '='] => do
    let n := ((← sextet? a) * 64 + (← sextet? b)) * 64 + (← sextet? c)
    return [(n / 1024).toUInt8, (n / 4).toUInt8]
  | a :: b :: c :: d :: rest => do
    let n := (((← sextet? a) * 64 + (← sextet? b)) * 64 + (← sextet? c)) * 64 + (← sextet? d)
    return (n / 65536).toUInt8 :: (n / 256).toUInt8 :: n.toUInt8 :: (← unpack rest)
  | _ => none

def unpacked? (text : String) : Option String :=
  (unpack (text.toList.filter fun c => c != '\n' && c != '\r')).map Text.ofBytes

/-! ## Settings -/

inductive Setting
  | maxDepth
  | trace
  | pretty
  deriving DecidableEq, Repr

namespace Setting

def ofName? : String → Option Setting
  | "maxDepth" => some maxDepth
  | "trace" => some trace
  | "pretty" => some pretty
  | _ => none

def type : Setting → String
  | maxDepth => "int"
  | trace => "string"
  | pretty => "bool"

end Setting

/-- A configuration in the making, with the complaints so far, last first, and the number of nodes
that were visited, and of those visited through an alias. -/
structure Draft where
  config : Config
  complaints : List Complaint
  visits : Nat
  aliased : Nat

namespace Draft

def complain (draft : Draft) (complaint : Complaint) : Draft :=
  { draft with complaints := complaint :: draft.complaints }

/-- Whether too many of the visits came through aliases.  Of up to 400000 visits 99 percent may; the
share falls evenly to 10 percent of 4000000 visits. -/
def hasManyAliases (draft : Draft) : Bool :=
  let share := 356400000 - 89 * (min draft.visits 4000000 - 400000)
  draft.aliased > 100 && draft.visits > 1000
    && draft.aliased * 360000000 > draft.visits * share

def visit (draft : Draft) (inAlias : Bool) : Except ReadError Draft :=
  let draft := { draft with
    visits := draft.visits + 1, aliased := draft.aliased + if inAlias then 1 else 0 }
  if draft.hasManyAliases then .error .manyAliases else .ok draft

def visitNode (draft : Draft) (node : Node) (inAlias : Bool) : Except ReadError Draft := do
  let draft ← draft.visit inAlias
  match node with
  | .reference .. => draft.visit true
  | _ => return draft

end Draft

def scalarValue (tag text : String) : Except ReadError Scalar :=
  if tag = "!!binary" then
    match unpacked? text with
    | some text => .ok (.text text)
    | none => .error .badBinary
  else
    match Yaml.Library.resolve tag text with
    | .ok value => .ok value
    | .error error => .error (.document error)

/-- A number as a depth: the whole part, where there is one of 64 bits. -/
def wholePart? (value : Float) : Option Int :=
  if value.isNaN || value > 9223372036854775808.0 then none
  else match Number.truncate? value with
    | some whole => some (Number.toWord whole)
    | none => some (-Number.wordHalf)

def truth? : Scalar → Option Bool
  | .boolean value => some value
  | .text text => Yaml.olderTruth? text
  | _ => none

/-- The configuration with a setting changed, if the value fits.  Any scalar fits a text. -/
def set? (config : Config) (setting : Setting) (text : String) (value : Scalar) : Option Config :=
  match setting, value with
  | .maxDepth, .integer value =>
    if value < Number.wordHalf then some { config with maxDepth := value } else none
  | .maxDepth, .float value => (wholePart? value).map fun maxDepth => { config with maxDepth }
  | .maxDepth, _ => none
  | .trace, .text text => some { config with trace := text }
  | .trace, _ => some { config with trace := text }
  | .pretty, value => (truth? value).map fun pretty => { config with pretty }

/-! ## Entries -/

def resolved (anchored : List Node) : Node → Node
  | .reference mark name target => anchored.getD target (.reference mark name target)
  | node => node

def keyText : Node → Nat × String
  | .scalar _ _ _ text => (0, text)
  | .sequence .. => (1, "")
  | .mapping .. => (2, "")
  | .reference _ name _ => (3, name)

def repeatedKeys : List (Node × Node) → List Complaint
  | [] => []
  | (key, _) :: rest =>
    (rest.filter fun later => keyText later.1 == keyText key).map
        (fun later => .repeatedKey later.1.line (keyText key).2 key.line)
      ++ repeatedKeys rest

def collectionMismatch (node : Node) (tag type : String) : Complaint :=
  .mismatch node.line tag (if tag = "!!seq" ∨ tag = "!!map" then none else some "") type

def collectionComplaints (type : String) (node : Node) : List Complaint :=
  match node with
  | .mapping _ tag entries =>
    match repeatedKeys entries with
    | [] => [collectionMismatch node tag type]
    | repeated => repeated
  | .sequence _ tag _ => [collectionMismatch node tag type]
  | _ => []

def complainAll (draft : Draft) (complaints : List Complaint) : Draft :=
  complaints.foldl Draft.complain draft

def takeValue (setting : Setting) (node : Node) (draft : Draft) : Except ReadError Draft :=
  match node with
  | .scalar _ tag _ text => do
    match ← scalarValue tag text with
    | .null => return draft
    | value =>
      match set? draft.config setting text value with
      | some config => return { draft with config }
      | none => return draft.complain (.mismatch node.line tag (some text) setting.type)
  | node => return complainAll draft (collectionComplaints setting.type node)

def keyName (key : Node) (draft : Draft) : Except ReadError (Option String × Draft) :=
  match key with
  | .scalar _ tag _ text => do
    match ← scalarValue tag text with
    | .null => return (none, draft)
    | .text text => return (some text, draft)
    | _ => return (some text, draft)
  | key => return (none, complainAll draft (collectionComplaints "string" key))

def isMerge : Node → Bool
  | .scalar _ tag _ text => text == "<<" && tag == "!!merge"
  | _ => false

def textKeys (anchored : List Node) (entries : List (Node × Node)) : List String :=
  entries.filterMap fun (key, _) =>
    match resolved anchored key with
    | .scalar _ tag _ text =>
      match scalarValue tag text with
      | .ok (.text text) => some text
      | _ => none
    | _ => none

/-- Reading a mapping: the draft, the names that count as there when mappings are merged, and the
settings that this mapping has set. -/
structure EntryState where
  draft : Draft
  names : Option (List String)
  done : List Setting

def takeEntry (anchored : List Node) (inAlias : Bool) (state : EntryState) (entry : Node × Node) :
    Except ReadError EntryState := do
  let draft ← state.draft.visitNode entry.1 inAlias
  let (name?, draft) ← keyName (resolved anchored entry.1) draft
  let state := { state with draft }
  match name? with
  | none => return state
  | some name =>
    if (state.names.getD []).contains name then return state
    let state := { state with names := state.names.map (name :: ·) }
    match Setting.ofName? name with
    | none =>
      return { state with draft := draft.complain (.unknownSetting entry.1.line name) }
    | some setting =>
      if state.done.contains setting then
        return { state with draft := draft.complain (.repeatedSetting entry.1.line name) }
      let draft ← draft.visitNode entry.2 inAlias
      let draft ← takeValue setting (resolved anchored entry.2) draft
      return { state with draft, done := setting :: state.done }

def mergeSources : Node → List Node
  | .sequence _ _ items => items
  | node => [node]

def enterSource (node : Node) (active : List Yaml.Mark) : Except ReadError (List Yaml.Mark) :=
  match node with
  | .reference mark name _ =>
    if active.contains mark then .error (.document (.selfContained name)) else .ok (mark :: active)
  | _ => .ok active

def visitSource (node : Node) (active : List Yaml.Mark) (draft : Draft) :
    Except ReadError (List Yaml.Mark × Draft) := do
  let draft ← draft.visit (!active.isEmpty)
  let entered ← enterSource node active
  match node with
  | .reference .. => return (entered, ← draft.visit true)
  | _ => return (entered, draft)

/-- The names that count as there when mappings are first merged into this one, for which its keys
are visited again. -/
def ownNames (anchored : List Node) (inAlias : Bool) (entries : List (Node × Node))
    (draft : Draft) : Except ReadError (List String × Draft) := do
  let draft ← entries.foldlM (fun draft entry => Draft.visitNode draft entry.1 inAlias) draft
  return (textKeys anchored entries, draft)

/-- Takes a mapping, and then the mappings that its merge key brings in.  `active` holds the aliases
that are being followed, and `fuel` bounds the nesting. -/
def takeMapping (anchored : List Node) :
    (fuel : Nat) → (active : List Yaml.Mark) → (entries : List (Node × Node)) →
    (names : Option (List String)) → Draft → Except ReadError (Draft × Option (List String))
  | 0, _, _, _, _ => .error .notMapping
  | fuel + 1, active, entries, names, draft =>
    match repeatedKeys entries with
    | complaint :: more => .ok (complainAll draft (complaint :: more), names)
    | [] => do
      let inAlias := !active.isEmpty
      let own := entries.filter fun entry => !isMerge entry.1
      let state ← own.foldlM (takeEntry anchored inAlias) ⟨draft, names, []⟩
      match entries.find? fun entry => isMerge entry.1 with
      | none => return (state.draft, state.names)
      | some (_, merged) =>
        let (names, draft) ← match state.names with
          | some names => pure (names, state.draft)
          | none => ownNames anchored inAlias entries state.draft
        let read ← (mergeSources merged).foldlM
          (fun (draft, names) node =>
            match resolved anchored node with
            | .mapping _ _ entries => do
              let (active, draft) ← visitSource node active draft
              takeMapping anchored fuel active entries names draft
            | _ => .error .notMapping)
          (draft, some names)
        return (read.1, state.names.bind fun _ => read.2)

/-! ## Documents -/

mutual

def nodeCount : Node → Nat
  | .scalar .. | .reference .. => 1
  | .sequence _ _ items => 1 + nodesCount items
  | .mapping _ _ entries => 1 + entriesCount entries

def nodesCount : List Node → Nat
  | [] => 0
  | node :: rest => nodeCount node + nodesCount rest

def entriesCount : List (Node × Node) → Nat
  | [] => 0
  | (key, value) :: rest => nodeCount key + nodeCount value + entriesCount rest

end

/-- The configuration in a document, starting from the usual one.  No document, and one with no
value, change nothing. -/
def ofDocument (document : Yaml.Document) : Except ReadError Config := do
  let start ← (← Draft.visit ⟨usual, [], 0, 0⟩ false).visit false
  let draft ← match document.root with
    | .mapping _ _ entries =>
      let size := nodeCount document.root + 1
      (takeMapping document.anchored (size * size) [] entries none start).map (·.1)
    | .scalar mark tag style text => do
      match ← scalarValue tag text with
      | .null => pure start
      | _ =>
        let line := (Node.scalar mark tag style text).line
        pure (start.complain (.mismatch line tag (some text) "config.Config"))
    | root => pure (complainAll start (collectionComplaints "config.Config" root))
  match draft.complaints with
  | [] => return draft.config
  | complaints => .error (.complaints complaints.reverse)

def ofInput (input : Except String (List UInt8)) : Except ReadError Config :=
  match Yaml.Library.parse input with
  | .error error => .error (.document error)
  | .ok none => .ok usual
  | .ok (some document) => ofDocument document

end Sapling.Config
