/-!
# Magnitudes of doubles

The absolute value of a finite double is a whole number of units `2 ^ -1074`.  It is kept as the
mantissa and the shift that its bits spell, so that rounding a ratio to a double and comparing a
decimal with one are matters of whole numbers.  A double that is made a signed word of 64 bits and
does not fit gives the least one.
-/

set_option autoImplicit false

namespace Sapling

def nearest (num den : Nat) : Nat :=
  let quotient := num / den
  let twice := 2 * (num % den)
  if twice < den then quotient
  else if den < twice then quotient + 1
  else if quotient % 2 = 0 then quotient else quotient + 1

/-- `mantissa * 2 ^ shift` units of `2 ^ -1074`. -/
structure Magnitude where
  mantissa : Nat
  shift : Nat
  deriving DecidableEq, Repr

namespace Magnitude

def one : Nat := Nat.pow 2 1074

def hidden : Nat := Nat.pow 2 52

def infinityBits : Nat := 2047 * hidden

def units (x : Magnitude) : Nat := x.mantissa * Nat.pow 2 x.shift

/-- The magnitude that the low 63 bits of a double spell, unless it is not finite. -/
def ofBits? (bits : Nat) : Option Magnitude :=
  if infinityBits ≤ bits then none
  else
    let field := bits / hidden
    if field = 0 then some ⟨bits, 0⟩ else some ⟨hidden + bits % hidden, field - 1⟩

def toBits (x : Magnitude) : Nat := x.shift * hidden + x.mantissa

/-- The low 63 bits of the double nearest to `num / den`, ties going to an even mantissa. -/
def bitsOfRatio (num den : Nat) : Nat :=
  let units := num * one
  let shift := (units / den).log2 + 1 - 53
  min infinityBits (toBits ⟨nearest units (den * Nat.pow 2 shift), shift⟩)

end Magnitude

namespace Number

def signBit : Nat := Nat.pow 2 63

def isNegative (x : Float) : Bool := signBit ≤ x.toBits.toNat

def magnitude? (x : Float) : Option Magnitude := Magnitude.ofBits? (x.toBits.toNat % signBit)

def ofSignAndBits (negative : Bool) (bits : Nat) : Float :=
  Float.ofBits (if negative then bits + signBit else bits).toUInt64

def ofRatio (negative : Bool) (num den : Nat) : Float :=
  ofSignAndBits negative (Magnitude.bitsOfRatio num den)

def ofInt (value : Int) : Float := ofRatio (value < 0) value.natAbs 1

def toInt? (x : Float) : Option Int :=
  match magnitude? x with
  | none => none
  | some m =>
    if m.units % Magnitude.one = 0 then
      let value : Int := (m.units / Magnitude.one : Nat)
      some (if isNegative x then -value else value)
    else none

def truncate? (x : Float) : Option Int :=
  (magnitude? x).map fun m =>
    let value : Int := (m.units / Magnitude.one : Nat)
    if isNegative x then -value else value

/-! ## Words -/

def wordHalf : Nat := 9223372036854775808

def wordSize : Nat := 18446744073709551616

def fitsWord (n : Int) : Bool := -(wordHalf : Int) ≤ n && n < wordHalf

/-- The signed word that a conversion from a double gives for its whole part. -/
def toWord (n : Int) : Int := if fitsWord n then n else -wordHalf

end Number
end Sapling
