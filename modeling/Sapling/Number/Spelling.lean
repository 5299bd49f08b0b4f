import Sapling.Number.Decimal

/-!
# Reading numbers

The values of spelled numbers: digits in a base, and decimals with a point and an exponent.
-/

set_option autoImplicit false

namespace Sapling.Number

def digitIn? (base : Nat) (c : Char) : Option Nat :=
  let value := if c.isDigit then some (c.toNat - 48)
    else if 'a' ≤ c ∧ c ≤ 'z' then some (c.toNat - 87)
    else if 'A' ≤ c ∧ c ≤ 'Z' then some (c.toNat - 55)
    else none
  value.filter (· < base)

def digitsIn? (base : Nat) (digits : List Char) : Option Nat :=
  digits.foldl (fun value c => do return (← value) * base + (← digitIn? base c)) (some 0)

def signed : List Char → Bool × List Char
  | '-' :: rest => (true, rest)
  | '+' :: rest => (false, rest)
  | rest => (false, rest)

def exponentPart? : List Char → Option Int
  | [] => some 0
  | mark :: rest =>
    let (negative, digits) := signed rest
    if (mark = 'e' ∨ mark = 'E') ∧ !digits.isEmpty then
      (digitsIn? 10 digits).map fun value => if negative then -(value : Int) else value
    else none

/-- A decimal: digits with an optional point among, before or behind them, and an optional
exponent. -/
def decimal? (text : List Char) : Option (Bool × Decimal) := do
  let (negative, rest) := signed text
  let whole := rest.takeWhile Char.isDigit
  let rest := rest.drop whole.length
  let (places, rest) := match rest with
    | '.' :: rest => (rest.takeWhile Char.isDigit, rest.dropWhile Char.isDigit)
    | rest => ([], rest)
  if whole.isEmpty && places.isEmpty then none
  let exponent ← exponentPart? rest
  let digits ← digitsIn? 10 (whole ++ places)
  return (negative, ⟨digits, exponent - places.length⟩)

def finite? (negative : Bool) (d : Decimal) : Option Float :=
  let bits := d.toBits
  if bits < Magnitude.infinityBits then some (ofSignAndBits negative bits) else none

def float? (text : List Char) : Option Float := do
  let (negative, d) ← decimal? text
  finite? negative d

end Sapling.Number
