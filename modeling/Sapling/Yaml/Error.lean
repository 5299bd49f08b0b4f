import Sapling.Yaml.Input

/-!
# Marks and errors of documents

Every way in which a document can fail to be read is one constructor; the wording, and the rule
for the line number in front of it, stand in one place.
-/

set_option autoImplicit false

namespace Sapling.Yaml

structure Mark where
  index : Nat
  line : Nat
  column : Nat
  deriving DecidableEq, Repr, Inhabited

def Mark.start : Mark := ⟨0, 0, 0⟩

def Mark.right (mark : Mark) : Mark :=
  { mark with index := mark.index + 1, column := mark.column + 1 }

def Mark.down (mark : Mark) (count : Nat) : Mark := ⟨mark.index + count, mark.line + 1, 0⟩

inductive Misspelling
  | noToken
  | missingColon
  | valueHere
  | keyHere
  | entryHere
  | tooDeep
  | directiveName
  | directiveNameEnd
  | unknownDirective
  | directiveEnd
  | versionDot
  | versionLong
  | versionMissing
  | tagDirectiveBlank
  | tagDirectiveEnd
  | anchorName
  | tagAngle
  | tagEnd
  | tagMark
  | tagUri
  | uriEscape
  | uriLeading
  | uriTrailing
  | zeroIndent
  | blockHeaderEnd
  | blockTab
  | documentMark
  | endOfStream
  | escape
  | hexDigits
  | escapeCode
  | plainTab
  deriving DecidableEq, Repr

def depthLimit : Nat := 10000

def Misspelling.message : Misspelling → String
  | noToken => "found character that cannot start any token"
  | missingColon => "could not find expected ':'"
  | valueHere => "mapping values are not allowed in this context"
  | keyHere => "mapping keys are not allowed in this context"
  | entryHere => "block sequence entries are not allowed in this context"
  | tooDeep => "exceeded max depth of " ++ toString depthLimit
  | directiveName => "could not find expected directive name"
  | directiveNameEnd => "found unexpected non-alphabetical character"
  | unknownDirective => "found unknown directive name"
  | directiveEnd => "did not find expected comment or line break"
  | versionDot => "did not find expected digit or '.' character"
  | versionLong => "found extremely long version number"
  | versionMissing => "did not find expected version number"
  | tagDirectiveBlank => "did not find expected whitespace"
  | tagDirectiveEnd => "did not find expected whitespace or line break"
  | anchorName => "did not find expected alphabetic or numeric character"
  | tagAngle => "did not find the expected '>'"
  | tagEnd => "did not find expected whitespace or line break"
  | tagMark => "did not find expected '!'"
  | tagUri => "did not find expected tag URI"
  | uriEscape => "did not find URI escaped octet"
  | uriLeading => "found an incorrect leading UTF-8 octet"
  | uriTrailing => "found an incorrect trailing UTF-8 octet"
  | zeroIndent => "found an indentation indicator equal to 0"
  | blockHeaderEnd => "did not find expected comment or line break"
  | blockTab => "found a tab character where an indentation space is expected"
  | documentMark => "found unexpected document indicator"
  | endOfStream => "found unexpected end of stream"
  | escape => "found unknown escape character"
  | hexDigits => "did not find expected hexdecimal number"
  | escapeCode => "found invalid Unicode character escape code"
  | plainTab => "found a tab character that violates indentation"

inductive Misplacement
  | documentStart
  | nodeContent
  | blockEntry
  | blockKey
  | flowSequence
  | flowMapping
  | duplicateVersion
  | version
  | duplicateTag
  | tagHandle
  deriving DecidableEq, Repr

def Misplacement.message : Misplacement → String
  | documentStart => "did not find expected <document start>"
  | nodeContent => "did not find expected node content"
  | blockEntry => "did not find expected '-' indicator"
  | blockKey => "did not find expected key"
  | flowSequence => "did not find expected ',' or ']'"
  | flowMapping => "did not find expected ',' or '\x7d'"
  | duplicateVersion => "found duplicate %YAML directive"
  | version => "found incompatible YAML document"
  | duplicateTag => "found duplicate %TAG directive"
  | tagHandle => "found undefined tag handle"

/-- Why a document cannot be read.  `context` is the line of the construct being read, `line` that
of the place where it went wrong.  A fault of the bytes has lines only where something else went
wrong before. -/
inductive Error
  | unreadable (context line : Nat) (fault : Fault)
  | misspelt (context line : Nat) (cause : Misspelling)
  | misplaced (context line : Nat) (cause : Misplacement)
  | unknownAnchor (name : String)
  | mistagged (found : String) (text : String) (wanted : String)
  | selfContained (name : String)
  deriving DecidableEq, Repr

/-- The line of the context, or else of the place.  The first line is never named; characters are
reported one line further down than tokens. -/
def lineNote (context line shift : Nat) : String :=
  let named := if context = 0 then line else context
  if named = 0 then "" else "line " ++ toString (named + shift) ++ ": "

def Error.message : Error → String
  | unreadable context line fault => lineNote context line 0 ++ fault.message
  | misspelt context line cause => lineNote context line 1 ++ cause.message
  | misplaced context line cause => lineNote context line 0 ++ cause.message
  | unknownAnchor name => "unknown anchor '" ++ name ++ "' referenced"
  | mistagged found text wanted =>
    "cannot decode " ++ found ++ " `" ++ text ++ "` as a " ++ wanted
  | selfContained name => "anchor '" ++ name ++ "' value contains itself"

/-- The error to report where `earlier` had been noted before.  A fault keeps the lines of what went
wrong before it. -/
def Error.after (earlier : Option Error) : Error → Error
  | unreadable context line fault =>
    match earlier with
    | some (unreadable context line _) | some (misspelt context line _)
    | some (misplaced context line _) => unreadable context line fault
    | _ => unreadable context line fault
  | error => error

end Sapling.Yaml
