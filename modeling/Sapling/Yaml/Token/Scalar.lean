import Sapling.Yaml.Cursor

/-!
# The text of scalars

Plain, quoted and block scalars.  What stands between two words of a scalar that is no block is
kept as a `Gap` until the next word shows that it counts.
-/

set_option autoImplicit false

namespace Sapling.Yaml

open Read (need rest mark column left complain skip skipMany skipBlanks skipBreak takeBreak
  takeWhile)

/-- White space between two words: the blanks before the first line break, that break (none when
it was escaped), and the breaks after it. -/
structure Gap where
  blanks : String
  broken : Bool
  first : Option Char
  more : String

namespace Gap

def none : Gap := ⟨"", false, .none, ""⟩

def escaped : Gap := ⟨"", true, .none, ""⟩

def isNone (gap : Gap) : Bool := !gap.broken && gap.blanks.isEmpty

def add (gap : Gap) (c : Char) : Gap :=
  if isBreak c then
    if gap.broken then { gap with more := gap.more.push c }
    else { gap with blanks := "", broken := true, first := some c }
  else if gap.broken then gap
  else { gap with blanks := gap.blanks.push c }

def join (gap : Gap) (text : String) : String :=
  if gap.broken then
    match gap.first with
    | .none => text ++ gap.more
    | some c =>
      if c = '\n' then (if gap.more.isEmpty then text.push ' ' else text ++ gap.more)
      else text.push c ++ gap.more
  else text ++ gap.blanks

end Gap

/-- Takes blanks and line breaks.  In a plain scalar, whose start and least column are given, no tab
may stand left of that column. -/
def takeGap (plain : Option (Mark × Nat)) : (fuel : Nat) → Gap → Read Gap
  | 0, gap => return gap
  | fuel + 1, gap => do
    match ← rest with
    | c :: _ =>
      if isBlank c then
        if let some (start, indent) := plain then
          if gap.broken && c == '\t' && (← column) < indent then complain start .plainTab
        skip
        need 1
        takeGap plain fuel (gap.add c)
      else if isBreak c then
        need 2
        let ending ← takeBreak
        need 1
        takeGap plain fuel (gap.add (ending.getD c))
      else return gap
    | [] => return gap

/-! ## Plain scalars -/

def endsPlain (flow : Bool) : List Char → Bool
  | [] => true
  | ':' :: rest => endsWord rest
  | c :: _ => flow && (c == ',' || c == '?' || c == '[' || c == ']' || c == '{' || c == '}')

def plainWord (flow : Bool) : (fuel : Nat) → (text : String) → Gap → Read (String × Gap)
  | 0, text, gap => return (text, gap)
  | fuel + 1, text, gap => do
    match ← rest with
    | c :: more =>
      if isBlankOrBreak c || endsPlain flow (c :: more) then return (text, gap)
      else
        skip
        need 2
        plainWord flow fuel ((gap.join text).push c) Gap.none
    | [] => return (text, gap)

def plainWords (flow : Bool) (indent : Nat) (start : Mark) :
    (fuel : Nat) → (text : String) → Gap → Read (String × Bool)
  | 0, text, gap => return (text, gap.broken)
  | fuel + 1, text, gap => do
    need 4
    let ahead ← rest
    if (← column) == 0 && isDocumentMark ahead || ahead.head? == some '#' then
      return (text, gap.broken)
    let (text, gap) ← plainWord flow (← left) text gap
    match ← rest with
    | c :: _ =>
      if isBlankOrBreak c then
        let gap ← takeGap (some (start, indent)) (← left) gap
        if !flow && (← column) < indent then return (text, gap.broken)
        else plainWords flow indent start fuel text gap
      else return (text, gap.broken)
    | [] => return (text, gap.broken)

/-- Takes a plain scalar.  Words must stand at column `indent` or further right unless in a flow
collection.  Also tells whether a line break stands behind the last word. -/
def plainScalar (flow : Bool) (indent : Nat) : Read (String × Bool) := do
  plainWords flow indent (← mark) ((← left) + 1) "" Gap.none

/-! ## Quoted scalars -/

def shortEscape? (c : Char) : Option Char :=
  match c with
  | '0' => some '\x00'
  | 'a' => some '\x07'
  | 'b' => some '\x08'
  | 't' | '\t' => some '\t'
  | 'n' => some '\n'
  | 'v' => some '\x0b'
  | 'f' => some '\x0c'
  | 'r' => some '\r'
  | 'e' => some '\x1b'
  | ' ' => some ' '
  | '"' => some '"'
  | '\'' => some '\''
  | '\\' => some '\\'
  | 'N' => some '\u0085'
  | '_' => some '\u00a0'
  | 'L' => some '\u2028'
  | 'P' => some '\u2029'
  | _ => none

def escapeDigits? (c : Char) : Option Nat :=
  match c with
  | 'x' => some 2
  | 'u' => some 4
  | 'U' => some 8
  | _ => none

def hexNumber? (digits : List Char) : Option Nat :=
  digits.foldl (fun number c => number.bind fun n => (hexValue? c).map (n * 16 + ·)) (some 0)

def escapeCode (start : Mark) (digits : Nat) : Read Char := do
  need digits
  let spelled := (← rest).take digits
  match if spelled.length < digits then none else hexNumber? spelled with
  | none => complain start .hexDigits
  | some value =>
    if 0xD800 ≤ value ∧ value ≤ 0xDFFF ∨ 0x10FFFF < value then complain start .escapeCode
    skipMany digits
    return Char.ofNat value

def escape (start : Mark) (letter : Option Char) : Read Char := do
  match letter.bind shortEscape?, letter.bind escapeDigits? with
  | some meaning, _ =>
    skipMany 2
    return meaning
  | none, some digits =>
    skipMany 2
    escapeCode start digits
  | none, none => complain start .escape

def quotationMark (single : Bool) : Char := if single then '\'' else '"'

def quotedWord (single : Bool) (start : Mark) :
    (fuel : Nat) → (text : String) → Read (String × Gap)
  | 0, text => return (text, Gap.none)
  | fuel + 1, text => do
    match ← rest with
    | [] => return (text, Gap.none)
    | c :: more =>
      if isBlankOrBreak c then return (text, Gap.none)
      else if single && c == '\'' && more.head? == some '\'' then
        skipMany 2
        need 2
        quotedWord single start fuel (text.push c)
      else if c == quotationMark single then return (text, Gap.none)
      else if !single && c == '\\' then
        if (more.head?.map isBreak).getD false then
          need 3
          skip
          discard takeBreak
          return (text, Gap.escaped)
        let meaning ← escape start more.head?
        need 2
        quotedWord single start fuel (text.push meaning)
      else
        skip
        need 2
        quotedWord single start fuel (text.push c)

def quotedWords (single : Bool) (start : Mark) : (fuel : Nat) → (text : String) → Read String
  | 0, text => return text
  | fuel + 1, text => do
    need 4
    let ahead ← rest
    if (← column) == 0 && isDocumentMark ahead then complain start .documentMark
    if ahead.isEmpty then complain start .endOfStream
    let (text, gap) ← quotedWord single start (← left) text
    need 1
    if (← rest).head? == some (quotationMark single) then
      skip
      return text
    let gap ← takeGap none (← left) gap
    quotedWords single start fuel (gap.join text)

def quotedScalar (single : Bool) : Read String := do
  let start ← mark
  skip
  quotedWords single start ((← left) + 2) ""

/-! ## Block scalars -/

inductive Chomping
  | clip
  | strip
  | keep
  deriving DecidableEq

structure BlockHeader where
  chomping : Chomping
  step : Nat

def chomping? : List Char → Option Chomping
  | '+' :: _ => some .keep
  | '-' :: _ => some .strip
  | _ => none

def digit? : List Char → Option Nat
  | c :: _ => if c.isDigit then some (c.toNat - 48) else none
  | [] => none

def blockStep (start : Mark) : Read Nat := do
  match digit? (← rest) with
  | none => return 0
  | some digit =>
    if digit = 0 then complain start .zeroIndent
    skip
    return digit

def blockHeader : Read BlockHeader := do
  let start ← mark
  skip
  need 1
  let header : BlockHeader ← match chomping? (← rest) with
    | some chomping => do
      skip
      need 1
      pure ⟨chomping, ← blockStep start⟩
    | none => do
      let step ← blockStep start
      need 1
      let ahead ← rest
      let chomping := if step = 0 then none else chomping? ahead
      if chomping.isSome then skip
      pure ⟨chomping.getD .clip, step⟩
  skipBlanks
  return header

/-- The text of a block scalar so far: the break behind its last line, the breaks of empty lines
after that, and whether that line started with a blank. -/
structure BlockText where
  text : String
  ending : Option Char
  empty : String
  blankLine : Bool

namespace BlockText

def openLine (literal : Bool) (body : BlockText) (blank : Bool) : BlockText :=
  let text :=
    if !literal && !body.blankLine && !blank && body.ending == some '\n' then
      if body.empty.isEmpty then body.text.push ' ' else body.text
    else match body.ending with
      | none => body.text
      | some c => body.text.push c
  ⟨text ++ body.empty, none, "", blank⟩

def finish (body : BlockText) (chomping : Chomping) : String :=
  let text := match chomping, body.ending with
    | .strip, _ | _, none => body.text
    | _, some c => body.text.push c
  if chomping = .keep then text ++ body.empty else text

end BlockText

def settledIndent (outer widest : Nat) : Nat := max (max widest outer) 1

/-- Takes the indentation of a line and the empty lines in front of it.  `indent` is the column of
the text, zero while that is still to be settled; gives the widest indentation, and the breaks. -/
def takeMargin (start : Mark) (indent : Nat) :
    (fuel : Nat) → (widest : Nat) → (empty : String) → Read (Nat × String)
  | 0, widest, empty => return (widest, empty)
  | fuel + 1, widest, empty => do
    need 1
    let here ← column
    let widest := max widest here
    let inside := indent == 0 || here < indent
    match ← rest with
    | c :: _ =>
      if inside && c == ' ' then
        skip
        takeMargin start indent fuel widest empty
      else if inside && c == '\t' then complain start .blockTab
      else if isBreak c then
        need 2
        let ending ← takeBreak
        takeMargin start indent fuel widest (empty.push (ending.getD c))
      else return (widest, empty)
    | [] => return (widest, empty)

def blockLines (literal : Bool) (start : Mark) (indent : Nat) :
    (fuel : Nat) → BlockText → Read BlockText
  | 0, body => return body
  | fuel + 1, body => do
    need 1
    match ← rest with
    | c :: _ =>
      if (← column) == indent then
        let body := body.openLine literal (isBlank c)
        let text ← takeWhile fun c => !isBreak c
        need 2
        let ending ← takeBreak
        let (_, empty) ← takeMargin start indent ((← left) + 1) 0 ""
        blockLines literal start indent fuel { body with text := body.text ++ text, ending, empty }
      else return body
    | [] => return body

def blockBody (literal : Bool) (header : BlockHeader) (outer : Option Nat) (start : Mark) :
    Read String := do
  unless endsLine (← rest) do complain start .blockHeaderEnd
  skipBreak
  let given := if header.step = 0 then 0 else outer.getD 0 + header.step
  let (widest, empty) ← takeMargin start given ((← left) + 1) 0 ""
  let least := match outer with
    | none => 0
    | some column => column + 1
  let indent := if given = 0 then settledIndent least widest else given
  let body ← blockLines literal start indent ((← left) + 1) ⟨"", none, empty, false⟩
  return body.finish header.chomping

end Sapling.Yaml
