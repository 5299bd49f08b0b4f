import Sapling.Proofs.WholeNumbers

/-!
# The nearest double

What it means that a number is rounded to a double is said here without intervals
(`Number.RoundsTo`).  No number with a mantissa of 53 bits is nearer, however large its exponent, so
that a number too large for a double is rounded to none; and if another one is as near, the double
has the even mantissa.

The interval of a magnitude holds such numbers only (`Number.roundsTo_of_contains`).  Its ends stand
halfway to the neighbours of the magnitude: nothing with 53 bits lies between the magnitude and a
place as far behind an end as the magnitude is before it (`Decimal.Interval.apart`).
-/

set_option autoImplicit false

namespace Sapling

namespace Magnitude

def value (m : Magnitude) : ℚ := m.units / one

theorem one_pos : 0 < one := by
  obtain ⟨places, isPlaces⟩ : ∃ places, places = 1074 := ⟨_, rfl⟩
  rw [one_eq isPlaces]
  exact Nat.two_pow_pos places

theorem value_nonneg (m : Magnitude) : 0 ≤ m.value :=
  div_nonneg (Nat.cast_nonneg _) (Nat.cast_nonneg _)

theorem value_quarters (m : Magnitude) : m.value * Decimal.quarters = 4 * m.units := by
  have nonzero : (one : ℚ) ≠ 0 := Nat.cast_ne_zero.mpr one_pos.ne'
  rw [value, Decimal.quarters, Nat.cast_mul]
  generalize (one : ℚ) = unit at *
  field_simp
  push_cast
  ring

def signed (m : Magnitude) (negative : Bool) : ℚ := if negative then -m.value else m.value

theorem signed_true (m : Magnitude) : m.signed true = -m.value := rfl

theorem signed_not (m : Magnitude) (negative : Bool) :
    m.signed (!negative) = -m.signed negative := by
  cases negative with
  | false => rfl
  | true => exact (neg_neg m.value).symm

section Neighbours
variable {x other : Magnitude}

theorem units_eq (m : Magnitude) : m.units = m.mantissa * 2 ^ m.shift := by
  rw [units, Nat.pow_eq]

theorem exists_units_eq_mul (coarse : x.shift ≤ other.shift) :
    ∃ places, other.units = places * 2 ^ x.shift := by
  obtain ⟨more, same⟩ := Nat.exists_eq_add_of_le coarse
  refine ⟨other.mantissa * 2 ^ more, ?_⟩
  rw [units_eq, same]
  ring

/-- A number of 53 bits with a smaller shift lies half a place below a power of two. -/
theorem units_lt_of_shift_lt (short : other.mantissa < 2 * hidden) (fine : other.shift < x.shift) :
    2 * other.units + 2 ^ x.shift ≤ 2 * (hidden * 2 ^ x.shift) := by
  have half : 2 * 2 ^ other.shift ≤ 2 ^ x.shift := by
    rw [← Nat.pow_succ']
    exact Nat.pow_le_pow_right (by decide) fine
  calc 2 * other.units + 2 ^ x.shift = other.mantissa * (2 * 2 ^ other.shift) + 2 ^ x.shift := by
        rw [units_eq]
        ring
    _ ≤ other.mantissa * 2 ^ x.shift + 2 ^ x.shift :=
        Nat.add_le_add_right (Nat.mul_le_mul_left _ half) _
    _ = (other.mantissa + 1) * 2 ^ x.shift := (Nat.succ_mul _ _).symm
    _ ≤ 2 * hidden * 2 ^ x.shift := Nat.mul_le_mul_right _ short
    _ = 2 * (hidden * 2 ^ x.shift) := Nat.mul_assoc _ _ _

variable (canonical : x.Canonical) (short : other.mantissa < 2 * hidden)
include canonical short

theorem units_above (above : x.units < other.units) : x.units + 2 ^ x.shift ≤ other.units := by
  have widthPos : 0 < 2 ^ x.shift := Nat.two_pow_pos _
  rw [units_eq x] at *
  by_cases fine : other.shift < x.shift
  · have low := units_lt_of_shift_lt short fine
    have full := Nat.mul_le_mul_right (2 ^ x.shift) (canonical.full (by omega))
    omega
  · obtain ⟨places, same⟩ := exists_units_eq_mul (Nat.not_lt.mp fine)
    rw [same] at above ⊢
    rw [← Nat.succ_mul]
    exact Nat.mul_le_mul_right _ (Nat.lt_of_mul_lt_mul_right above)

/-- The one before is a whole place below, or half a place from a power of two. -/
theorem units_below (below : other.units < x.units) :
    other.units + 2 ^ x.shift ≤ x.units ∨
      x.mantissa = hidden ∧ 0 < x.shift ∧ 2 * other.units + 2 ^ x.shift ≤ 2 * x.units := by
  have widthPos : 0 < 2 ^ x.shift := Nat.two_pow_pos _
  rw [units_eq x] at *
  by_cases fine : other.shift < x.shift
  · have low := units_lt_of_shift_lt short fine
    have full := canonical.full (by omega)
    by_cases bottom : x.mantissa = hidden
    · rw [bottom]
      exact .inr ⟨rfl, by omega, low⟩
    · have more : (hidden + 1) * 2 ^ x.shift ≤ x.mantissa * 2 ^ x.shift :=
        Nat.mul_le_mul_right _ (by omega)
      rw [Nat.succ_mul] at more
      exact .inl (by omega)
  · obtain ⟨places, same⟩ := exists_units_eq_mul (Nat.not_lt.mp fine)
    rw [same] at below ⊢
    rw [← Nat.succ_mul]
    exact .inl (Nat.mul_le_mul_right _ (Nat.lt_of_mul_lt_mul_right below))

end Neighbours
end Magnitude

namespace Decimal.Interval

theorem middle_eq (x : Magnitude) : (of x).middle = 4 * x.units := by
  rw [Magnitude.units_eq]
  exact Nat.mul_assoc _ _ _

/-- The ends of the interval stand halfway to the neighbours, or nearer. -/
theorem apart {x other : Magnitude} (canonical : x.Canonical)
    (short : other.mantissa < 2 * Magnitude.hidden) :
    (x.units < other.units → 2 * (of x).high ≤ (of x).middle + 4 * other.units) ∧
      (other.units < x.units → (of x).middle + 4 * other.units ≤ 2 * (of x).low) := by
  have middle := middle_eq x
  constructor
  · intro above
    have far := Magnitude.units_above canonical short above
    have high : (of x).high = 4 * x.units + 2 * 2 ^ x.shift := by
      rw [Magnitude.units_eq, ← Nat.mul_assoc, ← Nat.add_mul]
      rfl
    omega
  · intro below
    have far := Magnitude.units_below canonical short below
    have some : 0 < x.mantissa := by
      by_contra none
      rw [Magnitude.units_eq x, Nat.eq_zero_of_not_pos none, Nat.zero_mul] at below
      exact absurd below (Nat.not_lt_zero _)
    obtain ⟨part, chosen⟩ :
        ∃ part, part = if x.mantissa = Magnitude.hidden ∧ 0 < x.shift then 1 else 2 := ⟨_, rfl⟩
    have low : (of x).low + part * 2 ^ x.shift = 4 * x.units := by
      have : (of x).low = (4 * x.mantissa - part) * 2 ^ x.shift := by
        rw [chosen]
        rfl
      rw [this, ← Nat.add_mul, Nat.sub_add_cancel (by split_ifs at chosen <;> omega),
        Magnitude.units_eq, Nat.mul_assoc]
    split_ifs at chosen with bottom
    · rw [chosen] at low
      omega
    · rw [chosen] at low
      rcases far with whole | ⟨least, positive, -⟩
      · omega
      · exact absurd ⟨least, positive⟩ bottom

theorem Contains.even_of_end {x : Magnitude} {q : ℚ} (inside : (of x).Contains q)
    (atEnd : q * quarters = (of x).low ∨ q * quarters = (of x).high) : x.mantissa % 2 = 0 := by
  by_contra odd
  have isOpen : (of x).closed = false := decide_eq_false odd
  rw [Contains, isOpen] at inside
  rcases atEnd with low | high
  · exact absurd low inside.1.ne'
  · exact absurd high inside.2.ne

theorem contains_value {x : Magnitude} (canonical : x.Canonical) (some : 0 < x.mantissa) :
    (of x).Contains x.value := by
  obtain ⟨-, -, low, high, -⟩ := of_wide canonical some
  rw [middle_eq] at low high
  apply Contains.of_lt
  · rw [x.value_quarters]
    exact_mod_cast low
  · rw [x.value_quarters]
    exact_mod_cast high

theorem Contains.nonneg {i : Interval} {q : ℚ} (inside : i.Contains q) : 0 ≤ q := by
  have low : (0 : ℚ) ≤ i.low := Nat.cast_nonneg _
  have quartersPos : (0 : ℚ) < quarters := by exact_mod_cast quarters_pos
  exact nonneg_of_mul_nonneg_left (low.trans inside.bounds.1) quartersPos

theorem nearer_of_halfway {q near far high : ℚ} (bound : q ≤ high) (half : 2 * high ≤ near + far)
    (more : near < far) : |q - near| < |q - far| ∨ |q - near| = |q - far| ∧ q = high := by
  have distance : |q - far| = far - q := by
    rw [abs_sub_comm]
    exact abs_of_nonneg (by linarith)
  rcases le_total q near with left | right
  · refine .inl ?_
    rw [distance, abs_of_nonpos (by linarith)]
    linarith
  · rw [distance, abs_of_nonneg (by linarith)]
    by_cases atEnd : q - near = far - q
    · exact .inr ⟨atEnd, by linarith⟩
    · exact .inl (lt_of_le_of_ne (by linarith) atEnd)

/-- What lies in the interval is not nearer to any other number of 53 bits. -/
theorem nearest_of_contains {x other : Magnitude} (canonical : x.Canonical) {q : ℚ}
    (inside : (of x).Contains q) (short : other.mantissa < 2 * Magnitude.hidden)
    (differs : other.value ≠ x.value) :
    |q - x.value| < |q - other.value| ∨
      |q - x.value| = |q - other.value| ∧ x.mantissa % 2 = 0 := by
  have quartersPos : (0 : ℚ) < quarters := by exact_mod_cast quarters_pos
  -- everything in quarters of units
  have scaled (m : Magnitude) : |q - m.value| = |q * quarters - 4 * m.units| / quarters := by
    rw [eq_div_iff quartersPos.ne', ← abs_of_pos quartersPos, ← abs_mul, abs_of_pos quartersPos,
      sub_mul, m.value_quarters]
  have apartUnits : x.units ≠ other.units := by
    intro same
    rw [Magnitude.value, ← same] at differs
    exact differs rfl
  obtain ⟨low, high⟩ := inside.bounds
  obtain ⟨above, below⟩ := apart canonical short
  rw [middle_eq] at above below
  rw [scaled, scaled, div_lt_div_iff_of_pos_right quartersPos, div_left_inj' quartersPos.ne']
  rcases lt_or_gt_of_ne apartUnits with more | less
  · have half : 2 * ((of x).high : ℚ) ≤ 4 * x.units + 4 * other.units := by
      exact_mod_cast above more
    have order : (4 : ℚ) * x.units < 4 * other.units := by
      have : 4 * x.units < 4 * other.units := by omega
      exact_mod_cast this
    exact (nearer_of_halfway high half order).imp_right fun tie =>
      ⟨tie.1, inside.even_of_end (.inr tie.2)⟩
  · -- the same seen from the other side
    have half : 2 * -((of x).low : ℚ) ≤ -(4 * x.units) + -(4 * other.units) := by
      have : (4 * x.units + 4 * other.units : ℚ) ≤ 2 * (of x).low := by exact_mod_cast below less
      linarith
    have order : -((4 : ℚ) * x.units) < -(4 * other.units) := by
      have : 4 * other.units < 4 * x.units := by omega
      exact neg_lt_neg (by exact_mod_cast this)
    have mirrored := nearer_of_halfway (neg_le_neg low) half order
    simp only [neg_sub_neg, abs_sub_comm _ (q * (quarters : ℚ)), neg_inj] at mirrored
    exact mirrored.imp_right fun tie => ⟨tie.1, inside.even_of_end (.inl tie.2)⟩

theorem nearest_of_contains_signed {x other : Magnitude} (canonical : x.Canonical)
    (some : 0 < x.mantissa) {q : ℚ} (inside : (of x).Contains q)
    (short : other.mantissa < 2 * Magnitude.hidden) {negative : Bool}
    (differs : other.signed negative ≠ x.value) :
    |q - x.value| < |q - other.signed negative| ∨
      |q - x.value| = |q - other.signed negative| ∧ x.mantissa % 2 = 0 := by
  cases negative with
  | false => exact nearest_of_contains canonical inside short differs
  | true =>
    -- a negative number is at least as far away as zero is
    have zero : (Magnitude.mk 0 0).value = 0 := by
      have nothing : (Magnitude.mk 0 0).units = 0 := Nat.zero_mul _
      rw [Magnitude.value, nothing, Nat.cast_zero, zero_div]
    have positive : 0 < x.value := by
      have unitsPos : 0 < x.units := x.units_eq ▸ Nat.mul_pos some (Nat.two_pow_pos _)
      exact div_pos (Nat.cast_pos.mpr unitsPos) (Nat.cast_pos.mpr Magnitude.one_pos)
    have nearest := nearest_of_contains canonical inside
      (show (Magnitude.mk 0 0).mantissa < _ from by decide) (zero ▸ positive.ne)
    have farther : |q - (Magnitude.mk 0 0).value| ≤ |q - other.signed true| := by
      have nonneg := other.value_nonneg
      rw [zero, sub_zero, Magnitude.signed_true, sub_neg_eq_add, abs_of_nonneg inside.nonneg,
        abs_of_nonneg (add_nonneg inside.nonneg nonneg)]
      exact le_add_of_nonneg_right nonneg
    rcases nearest with less | ⟨tie, even⟩
    · exact .inl (lt_of_lt_of_le less farther)
    · exact (lt_or_eq_of_le (tie.trans_le farther)).imp_right fun same => ⟨same, even⟩

end Decimal.Interval

namespace Number

def rational? (x : Float) : Option ℚ := (magnitude? x).map (·.signed (isNegative x))

/-- The number is rounded to the double: no number of 53 bits is nearer, and of two that are equally
near the double has the even mantissa. -/
def RoundsTo (q : ℚ) (x : Float) : Prop :=
  ∃ m, magnitude? x = some m ∧
    ∀ other : Magnitude, other.mantissa < 2 * Magnitude.hidden → ∀ negative,
      let value := m.signed (isNegative x)
      other.signed negative ≠ value →
        |q - value| < |q - other.signed negative| ∨
          |q - value| = |q - other.signed negative| ∧ m.mantissa % 2 = 0

theorem roundsTo_of_contains {x : Float} {m : Magnitude} (finite : magnitude? x = some m)
    (some : 0 < m.mantissa) {q : ℚ} (inside : (Decimal.Interval.of m).Contains q) :
    RoundsTo (if isNegative x then -q else q) x := by
  obtain ⟨canonical, -⟩ := canonical_of_magnitude? finite
  refine ⟨m, finite, fun other short negative => ?_⟩
  intro value differs
  have nearest (negative : Bool) (differs : other.signed negative ≠ m.value) :=
    Decimal.Interval.nearest_of_contains_signed canonical some inside short differs
  cases sign : isNegative x with
  | false =>
    simp only [value, sign, Magnitude.signed, Bool.false_eq_true, if_false] at differs ⊢
    exact nearest negative differs
  | true =>
    -- mirrored, so that the double is positive
    simp only [value, sign, if_true] at differs ⊢
    have mirrored := nearest (!negative) (by
      rw [Magnitude.signed_not]
      exact fun same => differs (by rw [Magnitude.signed_true, ← same, neg_neg]))
    simp only [Magnitude.signed_not, sub_neg_eq_add] at mirrored
    simp only [Magnitude.signed_true, ← neg_add', abs_neg, ← sub_eq_add_neg]
    exact mirrored

end Number
end Sapling
