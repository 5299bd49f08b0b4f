import Sapling.Yaml.Token.Scan

/-!
# From tokens to events

Events name the nodes of one document in the order they are opened and closed.  What is expected
next, and what to go back to afterwards, is kept as a stack, so that nesting costs no recursion.
Tokens are scanned when they are looked at, so that the first error in the order of reading is the
one that is reported.  Only the first document of a stream is read.
-/

set_option autoImplicit false

namespace Sapling.Yaml

structure Properties where
  anchor : Option String
  tag : String
  deriving DecidableEq, Repr

def Properties.none : Properties := ⟨.none, ""⟩

inductive Event
  | reference (mark : Mark) (name : String)
  | scalar (mark : Mark) (properties : Properties) (style : ScalarStyle) (text : String)
  | sequenceStart (mark : Mark) (properties : Properties)
  | sequenceEnd
  | mappingStart (mark : Mark) (properties : Properties)
  | mappingEnd
  | documentEnd
  deriving DecidableEq, Repr

def Event.empty (mark : Mark) : Event := .scalar mark Properties.none .plain ""

/-- What the next tokens have to be.  Inside a collection its first mark is kept for errors; a
`pair` is a mapping of one key written in a flow sequence without braces. -/
inductive Expected
  | document
  | documentContent
  | documentEnd
  | blockSequenceStart
  | blockSequence (opened : Mark)
  | indentlessSequence
  | blockMappingStart
  | blockMappingKey (opened : Mark)
  | blockMappingValue (opened : Mark)
  | flowSequenceStart
  | flowSequence (opened : Mark)
  | pairKey (opened : Mark)
  | pairValue (opened : Mark)
  | pairEnd (opened : Mark)
  | flowMappingStart
  | flowMappingKey (opened : Mark)
  | flowMappingValue (opened : Mark)
  | flowMappingEmpty (opened : Mark)
  deriving Repr

inductive Heading
  | none
  | attached
  | apart
  deriving DecidableEq, Repr

/-- Takes the comments that belong to `token` or to what stands before it.  Those in front of the
end of a block wait for what comes behind that end. -/
def Heading.gather (token : Token) : List Comment → Heading → List Comment × Heading
  | [], heading => ([], heading)
  | comment :: rest, heading =>
    if token.start.index < comment.token then (comment :: rest, heading)
    else if comment.place == .head then
      if token.kind == .blockEnd then (comment :: rest, heading)
      else gather token rest (if comment.isApart then .apart else .attached)
    else gather token rest heading

structure Reader where
  scanner : Scanner
  expected : Expected
  stack : List Expected
  handles : List (String × String)
  heading : Heading

def Reader.start (input : Input) : Reader := ⟨Scanner.start input, .document, [], [], .none⟩

abbrev Parse := EStateM Error Reader

namespace Parse

def scan {α : Type} (action : Scan α) : Parse α := fun r =>
  match action r.scanner with
  | .ok value scanner => .ok value { r with scanner }
  | .error error scanner => .error error { r with scanner }

def peek : Parse Token := do
  let token ← scan Scan.first
  modify fun r =>
    let (comments, heading) := Heading.gather token r.scanner.comments r.heading
    { r with scanner := { r.scanner with comments }, heading }
  return token

def advance : Parse Unit := scan Scan.handOut

def setHeading (heading : Heading) : Parse Unit := modify ({ · with heading })

def expect (expected : Expected) : Parse Unit := modify ({ · with expected })

def push (expected : Expected) : Parse Unit :=
  modify fun r => { r with stack := expected :: r.stack }

def pop : Parse Unit :=
  modify fun r =>
    match r.stack with
    | [] => r
    | expected :: stack => { r with expected, stack }

def close : Parse Unit := do
  pop
  setHeading .none
  advance

def complain {α : Type} (context : Mark) (token : Token) (cause : Misplacement) : Parse α :=
  throw (.misplaced context.line token.start.line cause)

def tryPeek : Parse (Option Token) := fun r =>
  match peek r with
  | .ok token r => .ok (some token) r
  | .error error r =>
    let trouble := some (error.after r.scanner.trouble)
    .ok none { r with scanner := { r.scanner with trouble } }

/-- Moves behind a `-`.  Comments in front of it belong to it, and not to a collection that starts
right behind it. -/
def takeDash : Parse Unit := do
  advance
  let heading := (← get).heading
  if heading ≠ .none then
    setHeading .none
    let opens := match ← tryPeek with
      | some token => token.kind == .blockSequenceStart || token.kind == .blockMappingStart
      | none => false
    if !opens && (← get).heading == .none then setHeading heading

def resolveTag (handles : List (String × String)) (handle suffix : String) : Option String :=
  if handle.isEmpty then some suffix
  else match handles.find? (·.1 == handle) with
    | some (_, expansion) =>
      let tag := expansion ++ suffix
      if tag.isEmpty then none else some tag
    | none => none

def properties : Parse Properties := do
  let first ← peek
  let (anchor, tag) ← match first.kind with
    | .anchor name => do
      advance
      let second ← peek
      match second.kind with
      | .tag handle suffix => do
        advance
        pure (some name, some (second, handle, suffix))
      | _ => pure (some name, none)
    | .tag handle suffix => do
      advance
      let second ← peek
      match second.kind with
      | .anchor name => do
        advance
        pure (some name, some (first, handle, suffix))
      | _ => pure (none, some (first, handle, suffix))
    | _ => pure (none, none)
  discard peek
  match tag with
  | none => return ⟨anchor, ""⟩
  | some (token, handle, suffix) =>
    match resolveTag (← get).handles handle suffix with
    | some tag => return ⟨anchor, tag⟩
    | none => complain first.start token .tagHandle

/-- Reads the start of a node.  `block` allows block collections, `indentless` a block sequence
that is not indented further than its key. -/
def node (block indentless : Bool) : Parse Event := do
  let first ← peek
  let start := first.start
  if let .reference name := first.kind then
    close
    return .reference start name
  let properties ← properties
  let token ← peek
  match token.kind with
  | .scalar style text =>
    close
    return .scalar start properties style text
  | .flowSequenceStart =>
    expect .flowSequenceStart
    setHeading .none
    return .sequenceStart start properties
  | .flowMappingStart =>
    expect .flowMappingStart
    setHeading .none
    return .mappingStart start properties
  | kind =>
    if indentless && kind == .blockEntry then
      expect .indentlessSequence
      return .sequenceStart start properties
    else if block && kind == .blockSequenceStart then
      expect .blockSequenceStart
      return .sequenceStart start properties
    else if block && kind == .blockMappingStart then
      expect .blockMappingStart
      return .mappingStart start properties
    else if properties.anchor.isSome || !properties.tag.isEmpty then
      pop
      return .scalar start properties .plain ""
    else complain start token .nodeContent

def nodeThen (next : Expected) (block indentless : Bool) : Parse Event := do
  push next
  node block indentless

def emptyThen (next : Expected) (mark : Mark) : Parse Event := do
  expect next
  return Event.empty mark

def opened : Parse Mark := do
  let token ← peek
  advance
  return token.start

/-! ## Block collections -/

def closesBlockNode : TokenKind → Bool
  | .key | .value | .blockEnd => true
  | _ => false

def blockSequence (opened : Mark) : Parse Event := do
  let token ← peek
  match token.kind with
  | .blockEntry =>
    takeDash
    let next ← peek
    if next.kind == .blockEntry || next.kind == .blockEnd then
      emptyThen (.blockSequence opened) token.stop
    else nodeThen (.blockSequence opened) true false
  | .blockEnd =>
    pop
    advance
    return .sequenceEnd
  | _ => complain opened token .blockEntry

def indentlessSequence : Parse Event := do
  let token ← peek
  match token.kind with
  | .blockEntry =>
    takeDash
    let next ← peek
    if next.kind == .blockEntry || closesBlockNode next.kind then
      emptyThen .indentlessSequence token.stop
    else nodeThen .indentlessSequence true false
  | _ =>
    pop
    return .sequenceEnd

def blockPart (indicator : Token) (next : Expected) : Parse Event := do
  advance
  let token ← peek
  if closesBlockNode token.kind then emptyThen next indicator.stop
  else nodeThen next true true

def blockMappingKey (opened : Mark) : Parse Event := do
  let token ← peek
  match token.kind with
  | .key => blockPart token (.blockMappingValue opened)
  | .blockEnd =>
    close
    return .mappingEnd
  | _ => complain opened token .blockKey

def blockMappingValue (opened : Mark) : Parse Event := do
  let token ← peek
  match token.kind with
  | .value => blockPart token (.blockMappingKey opened)
  | _ => emptyThen (.blockMappingKey opened) token.start

/-! ## Flow collections -/

def flowSequence (opened : Mark) (first : Bool) : Parse Event := do
  let token ← peek
  if token.kind == .flowSequenceEnd then
    close
    return .sequenceEnd
  unless first do
    unless token.kind == .flowEntry do complain opened token .flowSequence
    advance
  let token ← peek
  match token.kind with
  | .key =>
    expect (.pairKey opened)
    advance
    return .mappingStart token.start Properties.none
  | .flowSequenceEnd =>
    close
    return .sequenceEnd
  | _ => nodeThen (.flowSequence opened) false false

def pairKey (opened : Mark) : Parse Event := do
  let token ← peek
  match token.kind with
  | .value | .flowEntry | .flowSequenceEnd =>
    advance
    emptyThen (.pairValue opened) token.stop
  | _ => nodeThen (.pairValue opened) false false

def pairValue (opened : Mark) : Parse Event := do
  let token ← peek
  if token.kind == .value then
    advance
    let next ← peek
    unless next.kind == .flowEntry || next.kind == .flowSequenceEnd do
      return ← nodeThen (.pairEnd opened) false false
  emptyThen (.pairEnd opened) token.start

def flowMappingKey (opened : Mark) (first : Bool) : Parse Event := do
  let token ← peek
  if token.kind == .flowMappingEnd then
    close
    return .mappingEnd
  unless first do
    unless token.kind == .flowEntry do complain opened token .flowMapping
    advance
  let token ← peek
  match token.kind with
  | .key =>
    advance
    let token ← peek
    match token.kind with
    | .value | .flowEntry | .flowMappingEnd => emptyThen (.flowMappingValue opened) token.start
    | _ => nodeThen (.flowMappingValue opened) false false
  | .flowMappingEnd =>
    close
    return .mappingEnd
  | _ => nodeThen (.flowMappingEmpty opened) false false

def flowMappingValue (opened : Mark) : Parse Event := do
  if (← peek).kind == .value then
    advance
    let next ← peek
    unless next.kind == .flowEntry || next.kind == .flowMappingEnd do
      return ← nodeThen (.flowMappingKey opened) false false
  emptyThen (.flowMappingKey opened) (← peek).start

/-! ## Documents -/

def commonHandles : List (String × String) := [("!", "!"), ("!!", "tag:yaml.org,2002:")]

def directivesFrom : (fuel : Nat) → (version : Bool) → (handles : List (String × String)) →
    Parse (List (String × String))
  | 0, _, handles => return handles
  | fuel + 1, version, handles => do
    let token ← peek
    match token.kind with
    | .versionDirective major minor =>
      if version then complain Mark.start token .duplicateVersion
      if major ≠ 1 ∨ minor ≠ 1 then complain Mark.start token .version
      advance
      directivesFrom fuel true handles
    | .tagDirective handle expansion =>
      if handles.any (·.1 == handle) then complain Mark.start token .duplicateTag
      advance
      directivesFrom fuel version (handles ++ [(handle, expansion)])
    | _ => return handles

def directives : Parse Unit := do
  let scanner := (← get).scanner
  let handles ← directivesFrom (scanner.cursor.left + scanner.queue.length + 4) false []
  let common := commonHandles.filter fun handle => !handles.any (·.1 == handle.1)
  modify ({ · with handles := handles ++ common })

def endsDocument : TokenKind → Bool
  | .versionDirective .. | .tagDirective .. | .documentStart | .documentEnd | .streamEnd => true
  | _ => false

def openStream : Parse Unit := do
  discard peek
  advance

/-- Opens the document; tells whether the stream holds one.  Comments apart from its first node are
not that node's. -/
def openDocument : Parse Bool := do
  let token ← peek
  match token.kind with
  | .streamEnd => return false
  | .versionDirective .. | .tagDirective .. | .documentStart =>
    directives
    let token ← peek
    unless token.kind == .documentStart do complain Mark.start token .documentStart
    expect .documentContent
    advance
    return true
  | _ =>
    directives
    expect .document
    if (← get).heading == .apart then setHeading .none
    return true

/-! ## All of them -/

def step : Parse Event := do
  match (← get).expected with
  | .document => nodeThen .documentEnd true false
  | .documentContent =>
    let token ← peek
    if endsDocument token.kind then emptyThen .documentEnd token.start
    else nodeThen .documentEnd true false
  | .documentEnd =>
    discard peek
    return .documentEnd
  | .blockSequenceStart => blockSequence (← opened)
  | .blockSequence opened => blockSequence opened
  | .indentlessSequence => indentlessSequence
  | .blockMappingStart => blockMappingKey (← opened)
  | .blockMappingKey opened => blockMappingKey opened
  | .blockMappingValue opened => blockMappingValue opened
  | .flowSequenceStart => flowSequence (← opened) true
  | .flowSequence opened => flowSequence opened false
  | .pairKey opened => pairKey opened
  | .pairValue opened => pairValue opened
  | .pairEnd opened =>
    discard peek
    expect (.flowSequence opened)
    return .mappingEnd
  | .flowMappingStart => flowMappingKey (← opened) true
  | .flowMappingKey opened => flowMappingKey opened false
  | .flowMappingValue opened => flowMappingValue opened
  | .flowMappingEmpty opened => emptyThen (.flowMappingKey opened) (← peek).start

def settle {α : Type} (action : Parse α) (r : Reader) : Except Error (α × Reader) :=
  match action r with
  | .ok value r =>
    match r.scanner.trouble with
    | some trouble => .error trouble
    | none => .ok (value, r)
  | .error error r => .error (error.after r.scanner.trouble)

end Parse

structure Events where
  list : List Event
  failure : Option Error

namespace Events

def run : (steps : Nat) → (done : List Event) → Reader → Events
  | 0, done, _ => ⟨done.reverse, none⟩
  | steps + 1, done, r =>
    match Parse.settle Parse.step r with
    | .error failure => ⟨done.reverse, some failure⟩
    | .ok (.documentEnd, _) => ⟨(Event.documentEnd :: done).reverse, none⟩
    | .ok (event, r) => run steps (event :: done) r

/-- More steps than a document of `size` characters can take: a character makes at most three
tokens, and a token stands for less than eight events. -/
def stepBound (size : Nat) : Nat := 40 * size + 100

def ofInput (input : Input) : Events :=
  match Parse.settle Parse.openStream (Reader.start input) with
  | .error failure => ⟨[], some failure⟩
  | .ok (_, r) =>
    match Parse.settle Parse.openDocument r with
    | .error failure => ⟨[], some failure⟩
    | .ok (false, _) => ⟨[], none⟩
    | .ok (true, r) => run (stepBound input.chars.length) [] r

end Events
end Sapling.Yaml
