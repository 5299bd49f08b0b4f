import Sapling.Yaml.Token.Comment
import Sapling.Yaml.Token.Property
import Sapling.Yaml.Token.Scalar

/-!
# From characters to tokens

Only the `:` behind a key without `?` shows that it was one; its `key` token, and the start of its
mapping, are then put in front of it.  A token is therefore handed out only when it is no longer
held as a possible key, and when two more tokens stand behind it.
-/

set_option autoImplicit false

namespace Sapling.Yaml
namespace Scan

/-! ## White space -/

/-- Moves to the next token, over white space and comments.  Tabs count as white space only inside
flow collections and where no key may start; a line break outside flow collections allows a key
again.  At the start of a line, a character is passed over where the characters that came in
together open with a byte order mark. -/
def toNextTokenFrom (searchStart : Mark) : (fuel : Nat) → Scan Unit
  | 0 => return
  | fuel + 1 => do
    read (Read.need 1)
    if (← mark).column = 0 && (← get).cursor.marked then read Read.skip
    let s ← get
    let tabs := s.flowLevel != 0 || !s.keyAllowed
    discard (read (Read.takeWhile fun c => c == ' ' || tabs && c == '\t'))
    turnComment
    if (← next?) == some '#' then commentsHere searchStart
    if ((← next?).map isBreak).getD false then
      read Read.skipBreak
      unless ← inFlow do allowKey true
      toNextTokenFrom searchStart fuel

def toNextToken : Scan Unit := do
  toNextTokenFrom (← mark) ((← get).cursor.left + 1)

/-! ## Possible keys -/

/-- Whether the key of a flow level is still possible.  One that its `:` can no longer reach is not;
where it was required, that is an error. -/
def keyReaches (level : Nat) : Scan Bool := do
  let s ← get
  match s.keys[s.flowLevel - level]? with
  | none => return false
  | some key =>
    if !key.isPossible then return false
    else if key.reaches s.cursor.mark then return true
    else if key.isRequired then complain key.mark .missingColon
    else
      set { s with keys := s.keys.set (s.flowLevel - level) { key with isPossible := false } }
      return false

def release (number : Nat) : Scan Unit :=
  modify fun s => { s with held := s.held.filter (·.1 != number) }

def setKey (key : PossibleKey) : Scan Unit :=
  modify fun s => { s with keys := key :: s.keys.tail }

def dropKey : Scan Unit := do
  if let key :: _ := (← get).keys then
    if key.isPossible then
      if key.isRequired then complain key.mark .missingColon
      setKey { key with isPossible := false }
      release key.number

def noteKey : Scan Unit := do
  let s ← get
  if s.keyAllowed then
    let number ← nextNumber
    let mark := s.cursor.mark
    let isRequired := s.flowLevel = 0 && s.indent == some mark.column
    dropKey
    setKey ⟨true, isRequired, number, mark⟩
    release number
    modify fun s => { s with held := (number, s.flowLevel) :: s.held }

/-! ## Blocks -/

def isInside (indent : Option Nat) (column : Nat) : Bool :=
  match indent with
  | none => true
  | some indent => indent < column

/-- Opens a block at `column`, if it lies inside the current one, with a token put in front of token
`number`, or at the end. -/
def openBlock (column : Nat) (number : Option Nat) (kind : TokenKind) (mark : Mark) :
    Scan Unit := do
  let s ← get
  if s.flowLevel = 0 && isInside s.indent column then
    set { s with indent := some column, outer := s.indent :: s.outer, blocks := s.blocks + 1 }
    if s.blocks ≥ depthLimit then complain ((s.keys.head?.map (·.mark)).getD Mark.start) .tooDeep
    match number with
    | some number => insert number kind mark
    | none => push kind mark mark

/-- Where a block at column `indent` ends: at the first of the comments at its column that follow
each other up to `mark`.  The comments are given last first. -/
def blockEnd (indent : Nat) : (comments : List Comment) → (reach : Nat) → (mark : Mark) → Mark
  | [], _, mark => mark
  | comment :: rest, reach, mark =>
    if comment.searchStop < reach then mark
    else
      blockEnd indent rest comment.searchStart
        (if comment.start.column = indent + 1 then comment.start else mark)

def closeBlocks (column : Option Nat) (mark : Mark) : Scan Unit := do
  let s ← get
  if s.flowLevel = 0 then go s.comments.reverse s.outer { mark with index := mark.index - 1 }
where
  go (comments : List Comment) : List (Option Nat) → Mark → Scan Unit
    | [], _ => return
    | indent :: outer, mark => do
      match (← get).indent with
      | none => return
      | some inner =>
        if (column.map fun column => decide (column < inner)).getD true then
          let mark := blockEnd inner comments mark.index mark
          push .blockEnd mark mark
          modify fun s => { s with indent, outer, blocks := s.blocks - 1 }
          go comments outer mark

/-! ## Tokens -/

def endBlocks : Scan Unit := do
  closeBlocks none (← mark)
  dropKey
  allowKey false

def streamStart : Scan Unit := do
  modify fun s => { s with keys := [⟨false, false, 0, Mark.start⟩] }
  push .streamStart (← mark) (← mark)

def streamEnd : Scan Unit := do
  modify fun s =>
    let here := s.cursor.mark
    let mark := if here.column = 0 then here else here.down 0
    { s with cursor := { s.cursor with mark } }
  endBlocks
  push .streamEnd (← mark) (← mark)

def flowStart (kind : TokenKind) : Scan Unit := do
  noteKey
  let here ← mark
  let number ← nextNumber
  modify fun s => { s with
    keys := ⟨false, false, number, here⟩ :: s.keys, flowLevel := s.flowLevel + 1 }
  if (← get).flowLevel > depthLimit then complain here .tooDeep
  allowKey true
  pushHere kind 1

def flowEnd (kind : TokenKind) : Scan Unit := do
  dropKey
  let s ← get
  if s.flowLevel ≠ 0 then
    if let key :: keys := s.keys then
      set { s with keys, flowLevel := s.flowLevel - 1 }
      release key.number
  allowKey false
  pushHere kind 1

def flowEntry : Scan Unit := do
  dropKey
  allowKey true
  pushHere .flowEntry 1

def blockEntry : Scan Unit := do
  let s ← get
  let here := s.cursor.mark
  if s.flowLevel = 0 && !s.keyAllowed then complain here .entryHere
  openBlock here.column none .blockSequenceStart here
  dropKey
  allowKey true
  pushHere .blockEntry 1

def explicitKey : Scan Unit := do
  let s ← get
  let here := s.cursor.mark
  if s.flowLevel = 0 && !s.keyAllowed then complain here .keyHere
  openBlock here.column none .blockMappingStart here
  dropKey
  allowKey (s.flowLevel = 0)
  pushHere .key 1

def value : Scan Unit := do
  let s ← get
  if ← keyReaches s.flowLevel then
    if let key :: _ := s.keys then
      insert key.number .key key.mark
      openBlock key.mark.column (some key.number) .blockMappingStart key.mark
      setKey { key with isPossible := false }
      release key.number
      allowKey false
  else
    let here := s.cursor.mark
    if s.flowLevel = 0 && !s.keyAllowed then complain here .valueHere
    openBlock here.column none .blockMappingStart here
    allowKey (s.flowLevel = 0)
  pushHere .value 1

def keyStart (action : Read TokenKind) : Scan Unit := do
  noteKey
  allowKey false
  let start ← mark
  let kind ← read action
  push kind start (← mark)

def blockScalar (literal : Bool) : Scan Unit := do
  dropKey
  allowKey true
  let start ← mark
  let header ← read blockHeader
  if (← next?) == some '#' then
    lineComment start
    read Read.skipLine
  let outer := (← get).indent
  let text ← read (blockBody literal header outer start)
  push (.scalar (if literal then .literal else .folded) text) start (← mark)

def plainScalar : Scan Unit := do
  noteKey
  allowKey false
  let s ← get
  let start := s.cursor.mark
  let indent := match s.indent with
    | none => 0
    | some column => column + 1
  let (text, broken) ← read (Yaml.plainScalar (s.flowLevel != 0) indent)
  push (.scalar .plain text) start (← mark)
  if broken then allowKey true

def isIndicator (c : Char) : Bool := "-?:,[]\x7b\x7d#&*!|>'\"%@`".contains c

def startsPlain (flow : Bool) : List Char → Bool
  | [] => false
  | c :: rest =>
    !isBlankOrBreak c && !isIndicator c
      || c == '-' && !(match rest with
        | next :: _ => isBlank next
        | [] => false)
      || !flow && (c == '?' || c == ':') && !endsWord rest

def contentToken (c : Char) (rest : List Char) : Scan Unit := do
  let flow ← inFlow
  match c with
  | '[' => flowStart .flowSequenceStart
  | '{' => flowStart .flowMappingStart
  | ']' => flowEnd .flowSequenceEnd
  | '}' => flowEnd .flowMappingEnd
  | ',' => flowEntry
  | '*' => keyStart (return .reference (← anchorName))
  | '&' => keyStart (return .anchor (← anchorName))
  | '!' => keyStart do
      let (handle, suffix) ← tagParts
      return .tag handle suffix
  | '\'' => keyStart (return .scalar .singleQuoted (← quotedScalar true))
  | '"' => keyStart (return .scalar .doubleQuoted (← quotedScalar false))
  | _ =>
    if c == '-' && endsWord rest then blockEntry
    else if c == '?' && (flow || endsWord rest) then explicitKey
    else if c == ':' && (flow || endsWord rest) then value
    else if c == '|' && !flow then blockScalar true
    else if c == '>' && !flow then blockScalar false
    else if startsPlain flow (c :: rest) then plainScalar
    else complain (← mark) .noToken

def commentToken (c : Char) : Scan Mark := do
  let s ← get
  let joins := if s.flowLevel = 0 then c == ':' else c == ','
  match joins, s.queue.getLast? with
  | true, some last => return last.start
  | _, _ => return s.cursor.mark

/-- Scans one more token, with the block ends in front of it.  A comment may follow on its line,
unless the token is a `-`. -/
def token : Scan Unit := do
  read (Read.need 1)
  if (← get).keys.isEmpty then streamStart
  else
    let before ← mark
    toNextToken
    closeBlocks (some (← mark).column) before
    read (Read.need 4)
    let s ← get
    match s.cursor.rest with
    | [] => streamEnd
    | c :: rest =>
      let start := s.cursor.mark
      if start.column = 0 && c == '%' then
        endBlocks
        let kind ← read directive
        push kind start (← mark)
      else if start.column = 0 && isDocumentMark (c :: rest) then
        endBlocks
        pushHere (if c == '-' then .documentStart else .documentEnd) 3
      else
        let owner ← commentToken c
        contentToken c rest
        unless ((← get).queue.getLast?.map (·.kind == .blockEntry)).getD false do
          lineComment owner

/-! ## Handing out -/

def isSettled : Scan Bool := do
  let s ← get
  match s.queue with
  | _ :: _ :: _ :: _ =>
    match s.held.find? (·.1 == s.handedOut) with
    | none => return true
    | some (_, level) => return !(← keyReaches level)
  | _ => return false

def firstFrom : (fuel : Nat) → Scan Unit
  | 0 => return
  | fuel + 1 => do
    unless ← isSettled do
      token
      firstFrom fuel

/-- The next token to be handed out.  At the end of the document there is always one more end, so a
few rounds more than there are characters are enough. -/
def first : Scan Token := do
  firstFrom ((← get).cursor.left + 8)
  match (← get).queue with
  | token :: _ => return token
  | [] => return ⟨.streamEnd, ← mark, ← mark⟩

def handOut : Scan Unit := do
  release (← get).handedOut
  modify fun s => { s with queue := s.queue.tail, handedOut := s.handedOut + 1 }

end Scan
end Sapling.Yaml
