/-!
# Points in time

Dates with times of day, the instants they name, and how they are written.
-/

set_option autoImplicit false

namespace Sapling

/-- A date and a time of day, with the offset of its zone in seconds. -/
structure Moment where
  year : Nat
  month : Nat
  day : Nat
  hour : Nat
  minute : Nat
  second : Nat
  nanosecond : Nat
  offset : Int
  deriving DecidableEq, Repr

namespace Moment

def isLeap (year : Nat) : Bool := year % 4 == 0 && (year % 100 != 0 || year % 400 == 0)

def daysIn (year month : Nat) : Nat :=
  match month with
  | 2 => if isLeap year then 29 else 28
  | 4 | 6 | 9 | 11 => 30
  | _ => 31

def isValid (m : Moment) : Bool :=
  1 ≤ m.month && m.month ≤ 12 && 1 ≤ m.day && m.day ≤ daysIn m.year m.month && m.hour < 24
    && m.minute < 60 && m.second < 60

def days (m : Moment) : Int :=
  let before := m.year - 1
  let years : Nat := if m.year = 0 then 0 else
    m.year * 365 + before / 4 - before / 100 + before / 400 + 1
  let months := ((List.range m.month).drop 1).foldl (fun sum month => sum + daysIn m.year month) 0
  ((years + months + m.day : Nat) : Int)

def nanoseconds (m : Moment) : Int :=
  let clock : Nat := m.hour * 3600 + m.minute * 60 + m.second
  let seconds := m.days * 86400 + (clock : Int) - m.offset
  seconds * 1000000000 + m.nanosecond

/-- The moment so many nanoseconds after the start of 1970.  Years are counted from March, so that
the leap day is the last one. -/
def ofUnix (nanoseconds : Nat) : Moment :=
  let seconds := nanoseconds / 1000000000
  let days := seconds / 86400 + 719468
  let cycle := days / 146097
  let dayOfCycle := days % 146097
  let yearOfCycle :=
    (dayOfCycle - dayOfCycle / 1460 + dayOfCycle / 36524 - dayOfCycle / 146096) / 365
  let dayOfYear := dayOfCycle - (365 * yearOfCycle + yearOfCycle / 4 - yearOfCycle / 100)
  let shifted := (5 * dayOfYear + 2) / 153
  let month := if shifted < 10 then shifted + 3 else shifted - 9
  let year := yearOfCycle + cycle * 400 + (if month ≤ 2 then 1 else 0)
  let time := seconds % 86400
  ⟨year, month, dayOfYear - (153 * shifted + 2) / 5 + 1, time / 3600, time / 60 % 60, time % 60,
    nanoseconds % 1000000000, 0⟩

def padded (width n : Nat) : String :=
  let digits := Nat.toDigits 10 n
  String.ofList (List.replicate (width - digits.length) '0' ++ digits)

def fractionText (nanosecond : Nat) : String :=
  let digits := ((padded 9 nanosecond).toList.reverse.dropWhile (· == '0')).reverse
  if digits.isEmpty then "" else "." ++ String.ofList digits

def text (m : Moment) : String :=
  padded 4 m.year ++ "-" ++ padded 2 m.month ++ "-" ++ padded 2 m.day ++ "T" ++ padded 2 m.hour
    ++ ":" ++ padded 2 m.minute ++ ":" ++ padded 2 m.second ++ fractionText m.nanosecond ++ "Z"

abbrev Field := List Char → Option (Nat × List Char)

def digitValue (c : Char) : Nat := c.toNat - 48

def shortNumber (short : Bool) : Field
  | a :: b :: rest =>
    if !a.isDigit then none
    else if b.isDigit then some (digitValue a * 10 + digitValue b, rest)
    else if short then some (digitValue a, b :: rest) else none
  | [a] => if short && a.isDigit then some (digitValue a, []) else none
  | [] => none

def yearNumber : Field
  | a :: b :: c :: d :: rest =>
    if a.isDigit && b.isDigit && c.isDigit && d.isDigit then
      some (((digitValue a * 10 + digitValue b) * 10 + digitValue c) * 10 + digitValue d, rest)
    else none
  | _ => none

def literalChar (c : Char) : List Char → Option (List Char)
  | d :: rest => if c = d then some rest else none
  | [] => none

/-- A fraction of a second in nanoseconds: a point or comma and at least one digit.  Digits past
the ninth do not count.  Without it the fraction is zero. -/
def fraction : List Char → Nat × List Char
  | mark :: rest =>
    let digits := rest.takeWhile Char.isDigit
    if (mark = '.' ∨ mark = ',') ∧ digits ≠ [] then
      let kept := (digits ++ List.replicate 9 '0').take 9
      (kept.foldl (fun n c => n * 10 + digitValue c) 0, rest.drop digits.length)
    else (0, mark :: rest)
  | [] => (0, [])

def zone : List Char → Option (Int × List Char)
  | 'Z' :: rest => some (0, rest)
  | sign :: a :: b :: ':' :: c :: d :: rest =>
    if a.isDigit && b.isDigit && c.isDigit && d.isDigit then
      let hours := digitValue a * 10 + digitValue b
      let minutes := digitValue c * 10 + digitValue d
      let seconds : Int := ((hours * 60 + minutes) * 60 : Nat)
      if hours > 24 || minutes > 60 then none
      else if sign = '+' then some (seconds, rest)
      else if sign = '-' then some (-seconds, rest)
      else none
    else none
  | _ => none

end Moment

structure MomentForm where
  /-- Whether months, days, minutes and seconds may have one digit. -/
  short : Bool
  /-- What divides date and time; `none` when there is no time. -/
  divider : Option Char
  zoned : Bool

def MomentForm.read (form : MomentForm) (text : List Char) : Option Moment := do
  let (year, rest) ← Moment.yearNumber text
  let (month, rest) ← Moment.shortNumber form.short (← Moment.literalChar '-' rest)
  let (day, rest) ← Moment.shortNumber form.short (← Moment.literalChar '-' rest)
  match form.divider with
  | none =>
    let moment : Moment := ⟨year, month, day, 0, 0, 0, 0, 0⟩
    if rest.isEmpty && moment.isValid then some moment else none
  | some divider =>
    let rest ← if divider = ' ' then
        (if rest.head? == some ' ' then some (rest.dropWhile (· == ' ')) else none)
      else Moment.literalChar divider rest
    let (hour, rest) ← Moment.shortNumber true rest
    let (minute, rest) ← Moment.shortNumber form.short (← Moment.literalChar ':' rest)
    let (second, rest) ← Moment.shortNumber form.short (← Moment.literalChar ':' rest)
    let (nanosecond, rest) := Moment.fraction rest
    let (offset, rest) ← if form.zoned then Moment.zone rest else some (0, rest)
    let moment : Moment := ⟨year, month, day, hour, minute, second, nanosecond, offset⟩
    if rest.isEmpty && moment.isValid then some moment else none

end Sapling
