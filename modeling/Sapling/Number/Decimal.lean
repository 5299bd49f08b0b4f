import Sapling.Number.Magnitude

/-!
# Decimals

The shortest decimal that reads back as a double, and its text.  A decimal of `k` digits is looked
for on the grid of its last place: of the double's two neighbours there, the first grid on which
one rounds to the double decides, and of two such neighbours the nearer one is taken.
-/

set_option autoImplicit false

namespace Sapling

structure Decimal where
  digits : Nat
  exponent : Int
  deriving DecidableEq, Repr

namespace Decimal

/-- The double nearest to a decimal, as 63 bits.  Decimals far outside the range are settled by
their number of places. -/
def toBits (d : Decimal) : Nat :=
  let places : Int := d.exponent + (Nat.toDigits 10 d.digits).length
  if d.digits = 0 ∨ places < -400 then 0
  else if places > 400 then Magnitude.infinityBits
  else match d.exponent with
    | .ofNat e => Magnitude.bitsOfRatio (d.digits * Nat.pow 10 e) 1
    | .negSucc e => Magnitude.bitsOfRatio d.digits (Nat.pow 10 (e + 1))

/-! ## The shortest decimal -/

structure Interval where
  low : Nat
  middle : Nat
  high : Nat
  closed : Bool

/-- Below a power of two the neighbour is only half as far away. -/
def Interval.of (x : Magnitude) : Interval :=
  let below := if x.mantissa = Magnitude.hidden ∧ 0 < x.shift then 1 else 2
  let scale := Nat.pow 2 x.shift
  ⟨(4 * x.mantissa - below) * scale, 4 * x.mantissa * scale, (4 * x.mantissa + 2) * scale,
    x.mantissa % 2 = 0⟩

def quarters : Nat := 4 * Magnitude.one

def Interval.holds (i : Interval) (num den : Nat) : Bool :=
  let value := num * quarters
  if i.closed then i.low * den ≤ value && value ≤ i.high * den
  else i.low * den < value && value < i.high * den

def power (exponent : Int) : Nat × Nat :=
  match exponent with
  | .ofNat e => (Nat.pow 10 e, 1)
  | .negSucc e => (1, Nat.pow 10 (e + 1))

/-- The neighbour of the interval's middle on the grid `10 ^ exponent` that rounds to it, the
nearer one if both do. -/
def onGrid? (i : Interval) (exponent : Int) : Option Nat :=
  let (num, den) := power exponent
  let below := i.middle * den / (quarters * num)
  let okBelow := i.holds (below * num) den
  let okAbove := i.holds ((below + 1) * num) den
  if okBelow && okAbove then some (nearest (i.middle * den) (quarters * num))
  else if okBelow then some below
  else if okAbove then some (below + 1)
  else none

def strip : (rounds : Nat) → Decimal → Decimal
  | 0, d => d
  | rounds + 1, d =>
    if d.digits % 10 = 0 then strip rounds ⟨d.digits / 10, d.exponent + 1⟩ else d

def leadingExponent (middle : Nat) : Int :=
  let whole := middle / quarters
  if 0 < whole then (Nat.toDigits 10 whole).length - 1
  else
    let scaled := middle * Nat.pow 10 400 / quarters
    (Nat.toDigits 10 scaled).length - 401

/-- The shortest decimal that reads back as the magnitude; seventeen digits are always enough. -/
def shortest (x : Magnitude) : Decimal :=
  if x.mantissa = 0 then ⟨0, 0⟩
  else
    let i := Interval.of x
    let lead := leadingExponent i.middle
    let found := (List.range 17).findSome? fun (more : Nat) =>
      let exponent := lead - more
      (onGrid? i exponent).map fun digits => strip 17 ⟨digits, exponent⟩
    found.getD ⟨0, 0⟩

/-! ## Texts -/

def digitText (digits : Nat) : String := String.ofList (Nat.toDigits 10 digits)

def zeros (count : Nat) : String := String.ofList (List.replicate count '0')

def positional (d : Decimal) : String :=
  let digits := Nat.toDigits 10 d.digits
  match d.exponent with
  | .ofNat e => String.ofList digits ++ zeros e
  | .negSucc e =>
    let places := e + 1
    if places < digits.length then
      String.ofList (digits.take (digits.length - places)) ++ "."
        ++ String.ofList (digits.drop (digits.length - places))
    else "0." ++ zeros (places - digits.length) ++ String.ofList digits

def scientific (d : Decimal) : String :=
  let digits := Nat.toDigits 10 d.digits
  let exponent := d.exponent + (digits.length - 1 : Nat)
  let fraction := match digits.drop 1 with
    | [] => ""
    | rest => "." ++ String.ofList rest
  String.ofList (digits.take 1) ++ fraction ++ "e" ++ (if exponent < 0 then "-" else "+")
    ++ digitText exponent.natAbs

end Decimal

namespace Number

def text (x : Float) : String :=
  match magnitude? x with
  | some m => (if isNegative x then "-" else "") ++ (Decimal.shortest m).positional
  | none => if x.isNaN then "NaN" else if isNegative x then "-Inf" else "+Inf"

/-- The text of a finite double in JSON: an exponent below `1e-6` and from `1e21` on. -/
def jsonText (x : Float) : String :=
  match magnitude? x with
  | some m =>
    let d := Decimal.shortest m
    let lead := d.exponent + ((Nat.toDigits 10 d.digits).length : Nat) - 1
    let body := if d.digits ≠ 0 ∧ (lead < -6 ∨ 21 ≤ lead) then d.scientific else d.positional
    (if isNegative x then "-" else "") ++ body
  | none => text x

def fixedText (places : Nat) (x : Float) : String :=
  match magnitude? x with
  | some m =>
    let scaled := nearest (m.units * Nat.pow 10 places) Magnitude.one
    let digits := Nat.toDigits 10 scaled
    let digits := List.replicate (places + 1 - digits.length) '0' ++ digits
    (if isNegative x then "-" else "") ++ String.ofList (digits.take (digits.length - places))
      ++ (if places = 0 then "" else "." ++ String.ofList (digits.drop (digits.length - places)))
  | none => text x

end Number
end Sapling
