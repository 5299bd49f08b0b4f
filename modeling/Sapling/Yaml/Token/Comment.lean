import Sapling.Yaml.Token.State

/-!
# Comments

A comment belongs to what stands before it, on its own line or above it, or to what follows.  The
comments that follow each other are looked for together, and only so far ahead.  What a comment says
is of no use; where it stands decides where the blocks around it end.
-/

set_option autoImplicit false

namespace Sapling.Yaml
namespace Scan

def commentReach : Nat := 512

/-- Asks for characters.  A fault is noted and does not stop the scanner. -/
def hopeFor (count : Nat) : Scan Bool := fun s =>
  match Read.need count s.cursor with
  | .ok _ cursor => .ok true { s with cursor }
  | .error error cursor =>
    .ok false { s with cursor, trouble := some (error.after s.trouble) }

def skipToSign : (fuel : Nat) → (sign : Nat) → Scan Unit
  | 0, _ => return
  | fuel + 1, sign => do
    read (Read.need 1)
    if (← mark).index < sign then
      if endsLine (← get).cursor.rest then read Read.skipBreak else read Read.skip
      skipToSign fuel sign

def takeComment (ahead : Nat) : Scan Mark := do
  skipToSign (ahead + 1) ((← mark).index + ahead)
  let start ← mark
  read Read.skipLine
  return start

def addComment (comment : Comment) : Scan Unit :=
  modify fun s => { s with comments := s.comments ++ [comment] }

def lineCommentFrom (token : Nat) : (fuel : Nat) → (ahead : Nat) → Scan Unit
  | 0, _ => return
  | fuel + 1, ahead => do
    unless ← hopeFor (ahead + 1) do return
    match (← get).cursor.rest.drop ahead with
    | c :: _ =>
      if isBlank c then lineCommentFrom token fuel (ahead + 1)
      else if c == '#' then
        let start ← takeComment ahead
        addComment ⟨.line, false, token, start, 0, 0⟩
    | [] => return

def lineComment (token : Mark) : Scan Unit := do
  if (← get).cursor.breaks = 0 then lineCommentFrom token.index commentReach 0

/-- A search for comments that follow each other.  `line` and `column` are those of the place looked
at, where columns count from one; they run one line behind once a comment was taken. -/
structure CommentSearch where
  searchStart : Nat
  token : Nat
  /-- Whether there are comments not filed yet, where they start, and whether an empty line
  follows them. -/
  hasFound : Bool
  start : Mark
  isApart : Bool
  line : Nat
  column : Nat
  footLine : Option Nat
  isFirstGap : Bool
  inGap : Bool
  behindValue : Bool

namespace CommentSearch

def closeFoot (search : CommentSearch) (here : Nat) : Scan CommentSearch := do
  addComment ⟨.foot, search.isApart, search.token, search.start, search.searchStart, here⟩
  return { search with hasFound := false, searchStart := here, token := here }

def isOutside (search : CommentSearch) (indent : Nat) : Bool := search.start.column ≤ indent

def endLine (search : CommentSearch) (indent here : Nat) (closes atEnd : Bool) :
    Scan CommentSearch := do
  if search.inGap && !closes then return search
  let belongs := search.isFirstGap && (some search.start.line == search.footLine
      && !search.behindValue || search.isOutside indent)
  if closes || belongs then
    if !search.hasFound then return search
    let token := if search.isOutside indent then search.start.index else search.token
    { search with token }.closeFoot here
  else return { search with isApart := search.isApart || !atEnd }

def finish (search : CommentSearch) (here : Nat) : Scan Unit := do
  if search.hasFound then
    addComment ⟨.head, search.isApart, search.start.index, search.start, search.searchStart,
      here - 1⟩

def isWide (c : Char) : Bool := 1 < c.utf8Size

/-- Looks at the character `ahead` characters on.  `isPart` says that it is the rest of a line break
of several bytes, which stands for nothing. -/
def look : (fuel : Nat) → (ahead : Nat) → (isPart : Bool) → CommentSearch → Scan Unit
  | 0, ahead, _, search => do search.finish ((← mark).index + ahead)
  | fuel + 1, ahead, isPart, search => do
    let here := (← mark).index + ahead
    unless ahead < commentReach do
      search.finish here
      return
    unless ← hopeFor (ahead + 1) do
      search.finish here
      return
    let s ← get
    let indent := s.indent.getD 0
    let search := { search with column := search.column + 1 }
    let c? := if isPart then some '\ufffd' else (s.cursor.rest.drop ahead).head?
    if (c?.map isBlank).getD false then look fuel (ahead + 1) false search
    else
      let closes := s.flowLevel != 0 && (c? == some ']' || c? == some '}')
      let breaks := (c?.map isBreak).getD false
      if closes || breaks || c?.isNone then
        let search ← search.endLine indent here closes c?.isNone
        if breaks then
          look fuel (ahead + 1) ((c?.map isWide).getD false)
            { search with
              isFirstGap := false, inGap := true, column := 0, line := search.line + 1 }
        else search.finish here
      else
        let search ←
          if search.hasFound && search.column ≤ indent
              && search.column != search.start.column then search.closeFoot here
          else pure search
        if c? == some '#' then
          let start :=
            if search.hasFound then search.start else ⟨here, search.line, search.column⟩
          discard (takeComment ahead)
          look fuel 1 (((← next?).map isWide).getD false)
            { search with
              hasFound := true, start, isApart := false, inGap := false, column := 0
              line := (← mark).line }
        else search.finish here

end CommentSearch

def commentsHere (searchStart : Mark) : Scan Unit := do
  let s ← get
  let here := s.cursor.mark
  let token : Option Token := match s.queue.reverse with
    | last :: before :: _ => if last.kind == .flowEntry then some before else some last
    | tokens => tokens.head?
  let footLine :=
    if searchStart.line = 0 then none
    else
      let line := here.line + 1 - s.cursor.breaks
      some (if s.cursor.breaks = 0 ∧ 1 < here.column then line + 1 else line)
  CommentSearch.look ((s.cursor.left + 2) * commentReach) 0 false
    { searchStart := searchStart.index
      token := (token.map (·.start.index)).getD 0
      hasFound := false
      start := Mark.start
      isApart := false
      line := here.line
      column := here.column
      footLine
      isFirstGap := s.cursor.breaks ≤ 1
      inGap := false
      behindValue := (token.map (·.kind == .value)).getD false }

def turnComment : Scan Unit :=
  modify fun s =>
    match s.comments.reverse, s.queue.reverse with
    | comment :: comments, last :: before :: _ =>
      if before.kind == .blockSequenceStart && last.kind == .blockEntry && comment.place == .line
          && !((s.cursor.rest.head?.map isBreak).getD false) then
        let token :=
          if comment.start.line + 1 = s.cursor.mark.line then s.cursor.mark.index else comment.token
        { s with comments := ({ comment with place := .head, token } :: comments).reverse }
      else s
    | _, _ => s

end Scan
end Sapling.Yaml
