import Mathlib.Algebra.Order.Field.Power
import Mathlib.Data.Nat.Cast.Order.Field
import Mathlib.Tactic.FieldSimp
import Mathlib.Tactic.NormNum
import Sapling.Proofs.Rounding

/-!
# Shortest decimals

The shortest decimal of a magnitude lies in the interval of the magnitude (`shortest_contained`),
and every decimal in that interval is read as the magnitude (`toBits_of_contained`).

That one is found at all rests on the grid of seventeen digits being finer than the interval is wide
(`middle_lt_width`): then one of the two neighbours of the middle lies in it.
-/

set_option autoImplicit false

namespace Sapling.Decimal

def value (d : Decimal) : ℚ := d.digits * 10 ^ d.exponent

/-- The value lies in the interval, or on its ends if these belong to it. -/
def Interval.Contains (i : Interval) (value : ℚ) : Prop :=
  if i.closed then (i.low : ℚ) ≤ value * quarters ∧ value * quarters ≤ i.high
  else (i.low : ℚ) < value * quarters ∧ value * quarters < i.high

theorem quarters_pos : 0 < quarters := by decide +kernel

/-! ## The grids -/

theorem Interval.holds_iff {i : Interval} {num den : Nat} (pos : 0 < den) :
    i.holds num den = true ↔ i.Contains ((num : ℚ) / den) := by
  have positive : (0 : ℚ) < den := by exact_mod_cast pos
  have scaled : (num : ℚ) / den * quarters = (num * quarters : Nat) / den := by
    push_cast
    ring
  have low_le : (i.low : ℚ) ≤ (num * quarters : Nat) / den ↔ i.low * den ≤ num * quarters := by
    rw [le_div_iff₀ positive]
    norm_cast
  have low_lt : (i.low : ℚ) < (num * quarters : Nat) / den ↔ i.low * den < num * quarters := by
    rw [lt_div_iff₀ positive]
    norm_cast
  have le_high : ((num * quarters : Nat) : ℚ) / den ≤ i.high ↔ num * quarters ≤ i.high * den := by
    rw [div_le_iff₀ positive]
    norm_cast
  have lt_high : ((num * quarters : Nat) : ℚ) / den < i.high ↔ num * quarters < i.high * den := by
    rw [div_lt_iff₀ positive]
    norm_cast
  unfold Interval.holds Interval.Contains
  rw [scaled, low_le, low_lt, le_high, lt_high]
  dsimp only
  split <;> simp

theorem Interval.Contains.of_lt {i : Interval} {value : ℚ} (low : (i.low : ℚ) < value * quarters)
    (high : value * quarters < i.high) : i.Contains value := by
  unfold Interval.Contains
  split
  · exact ⟨low.le, high.le⟩
  · exact ⟨low, high⟩

theorem Interval.Contains.bounds {i : Interval} {value : ℚ} (inside : i.Contains value) :
    (i.low : ℚ) ≤ value * quarters ∧ value * quarters ≤ i.high := by
  unfold Interval.Contains at inside
  split at inside
  · exact inside
  · exact ⟨inside.1.le, inside.2.le⟩

theorem power_pos (exponent : Int) : 0 < (power exponent).1 ∧ 0 < (power exponent).2 := by
  cases exponent <;> simp [power]

theorem power_ratio (exponent : Int) :
    ((power exponent).1 : ℚ) / (power exponent).2 = 10 ^ exponent := by
  cases exponent with
  | ofNat e => simp [power]
  | negSucc e => simp [power, zpow_negSucc]

theorem Interval.holds_power_iff {i : Interval} {exponent : Int} {count : Nat} :
    i.holds (count * (power exponent).1) (power exponent).2 = true
      ↔ i.Contains (count * 10 ^ exponent) := by
  have ratio : ((count * (power exponent).1 : Nat) : ℚ) / (power exponent).2
      = count * 10 ^ exponent := by
    rw [← power_ratio]
    push_cast
    ring
  rw [Interval.holds_iff (power_pos exponent).2, ratio]

theorem onGrid?_contained {i : Interval} {exponent : Int} {digits : Nat}
    (found : onGrid? i exponent = some digits) : i.Contains (digits * 10 ^ exponent) := by
  simp only [onGrid?] at found
  split at found
  · rename_i both
    rw [Bool.and_eq_true, Interval.holds_power_iff, Interval.holds_power_iff] at both
    rw [Option.some.injEq] at found
    subst found
    rcases nearest_eq_or (i.middle * (power exponent).2) (quarters * (power exponent).1) with h | h
    · rw [h]
      exact both.1
    · rw [h]
      exact both.2
  · split at found
    · rename_i below
      rw [Option.some.injEq] at found
      exact found ▸ Interval.holds_power_iff.mp below
    · split at found
      · rename_i above
        rw [Option.some.injEq] at found
        exact found ▸ Interval.holds_power_iff.mp above
      · cases found

/-- A grid finer than the interval has a point in it next to the middle. -/
theorem onGrid?_ne_none {i : Interval} {exponent : Int} (low : i.low < i.middle)
    (high : i.middle < i.high) (fine : (quarters : ℚ) * 10 ^ exponent < i.high - i.low) :
    onGrid? i exponent ≠ none := by
  have stepPos : 0 < quarters * (power exponent).1 :=
    Nat.mul_pos quarters_pos (power_pos exponent).1
  have denPos : (0 : ℚ) < (power exponent).2 := by exact_mod_cast (power_pos exponent).2
  simp only [onGrid?]
  generalize counted : i.middle * (power exponent).2 / (quarters * (power exponent).1) = count
  have floor : (count : ℚ) * 10 ^ exponent * quarters ≤ i.middle := by
    have : count * (quarters * (power exponent).1) ≤ i.middle * (power exponent).2 :=
      counted ▸ Nat.div_mul_le_self _ _
    rw [← power_ratio, mul_assoc, div_mul_eq_mul_div, ← mul_div_assoc, div_le_iff₀ denPos]
    rw [mul_comm ((power exponent).1 : ℚ)]
    exact_mod_cast this
  have ceiling : (i.middle : ℚ) < (count + 1 : Nat) * 10 ^ exponent * quarters := by
    have : i.middle * (power exponent).2 < (count + 1) * (quarters * (power exponent).1) := by
      rw [Nat.mul_comm (count + 1), ← counted]
      exact Nat.lt_mul_div_succ _ stepPos
    rw [← power_ratio, mul_assoc, div_mul_eq_mul_div, ← mul_div_assoc, lt_div_iff₀ denPos]
    rw [mul_comm ((power exponent).1 : ℚ)]
    exact_mod_cast this
  have lowCast : (i.low : ℚ) < i.middle := by exact_mod_cast low
  have highCast : (i.middle : ℚ) < i.high := by exact_mod_cast high
  have near :
      i.Contains (count * 10 ^ exponent) ∨ i.Contains ((count + 1 : Nat) * 10 ^ exponent) := by
    -- if the neighbour below lies too low, the one above is less than a width away from the low end
    by_cases below : (i.low : ℚ) < count * 10 ^ exponent * quarters
    · exact .inl (.of_lt below (lt_of_le_of_lt floor highCast))
    · refine .inr (.of_lt (lt_trans lowCast ceiling) ?_)
      push_cast at *
      linarith
  rw [← Interval.holds_power_iff, ← Interval.holds_power_iff] at near
  rcases near with below | above
  · simp only [below, Bool.true_and, if_true]
    split_ifs <;> exact Option.some_ne_none _
  · simp only [above, Bool.and_true, if_true]
    split_ifs <;> exact Option.some_ne_none _

/-! ## The first digit -/

theorem length_toDigits_bounds {n : Nat} (pos : 0 < n) :
    10 ^ ((Nat.toDigits 10 n).length - 1) ≤ n ∧ n < 10 ^ (Nat.toDigits 10 n).length := by
  have some : 0 < (Nat.toDigits 10 n).length := Nat.length_toDigits_pos
  have ten : 1 < 10 := by decide
  refine ⟨?_, (Nat.length_toDigits_le_iff ten some).mp le_rfl⟩
  rcases Nat.eq_zero_or_pos ((Nat.toDigits 10 n).length - 1) with one | more
  · rw [one, pow_zero]
    exact pos
  · by_contra less
    have := (Nat.length_toDigits_le_iff ten more).mpr (Nat.not_le.mp less)
    omega

theorem leadingExponent_le {middle : Nat} (pos : 4 ≤ middle) :
    (quarters : ℚ) * 10 ^ leadingExponent middle ≤ middle := by
  have quartersPos := quarters_pos
  unfold leadingExponent
  dsimp only
  split
  · rename_i whole
    have first := (length_toDigits_bounds whole).1
    have some : 0 < (Nat.toDigits 10 (middle / quarters)).length := Nat.length_toDigits_pos
    generalize (Nat.toDigits 10 (middle / quarters)).length = length at *
    obtain ⟨length, rfl⟩ := Nat.exists_eq_succ_of_ne_zero some.ne'
    have : quarters * 10 ^ length ≤ middle :=
      (Nat.mul_le_mul_left _ first).trans (Nat.mul_div_le middle quarters)
    have exponent : ((length.succ : Nat) : Int) - 1 = length := by omega
    rw [exponent, zpow_natCast]
    exact_mod_cast this
  · have tens : Nat.pow 10 400 = 10 ^ 400 := by decide +kernel
    rewrite [tens]
    have scaled : 0 < middle * 10 ^ 400 / quarters := by
      have large : quarters ≤ 4 * 10 ^ 400 := by decide +kernel
      exact Nat.div_pos (large.trans (Nat.mul_le_mul_right _ pos)) quartersPos
    have first := (length_toDigits_bounds scaled).1
    have some : 0 < (Nat.toDigits 10 (middle * 10 ^ 400 / quarters)).length :=
      Nat.length_toDigits_pos
    generalize (Nat.toDigits 10 (middle * 10 ^ 400 / quarters)).length = length at *
    obtain ⟨length, rfl⟩ := Nat.exists_eq_succ_of_ne_zero some.ne'
    have : quarters * 10 ^ length ≤ middle * 10 ^ 400 :=
      (Nat.mul_le_mul_left _ first).trans (Nat.mul_div_le _ quarters)
    have exponent : ((length.succ : Nat) : Int) - 401 = (length : Int) - (400 : Nat) := by omega
    rw [exponent, zpow_sub₀ (by norm_num), zpow_natCast, zpow_natCast, ← mul_div_assoc,
      div_le_iff₀ (by positivity)]
    exact_mod_cast this

/-! ## The intervals of magnitudes -/

/-- The interval of a positive magnitude is wider than the grid of seventeen digits. -/
theorem Interval.of_wide {x : Magnitude} (canonical : x.Canonical) (pos : 0 < x.mantissa) :
    2 ≤ (Interval.of x).low ∧ 4 ≤ (Interval.of x).middle ∧
      (Interval.of x).low < (Interval.of x).middle ∧
      (Interval.of x).middle < (Interval.of x).high ∧
      (Interval.of x).middle < 10 ^ 16 * ((Interval.of x).high - (Interval.of x).low) := by
  have less := canonical.mantissa_lt
  rcases x with ⟨mantissa, shift⟩
  simp only [Interval.of, Nat.pow_eq]
  dsimp only at pos less
  have scalePos : 0 < 2 ^ shift := Nat.two_pow_pos shift
  generalize 2 ^ shift = scale at *
  obtain ⟨below, chosen⟩ :
      ∃ below, below = if mantissa = Magnitude.hidden ∧ 0 < shift then 1 else 2 := ⟨_, rfl⟩
  rw [← chosen]
  have small : 1 ≤ below ∧ below ≤ 2 := by split_ifs at chosen <;> omega
  have digits : 4 * mantissa < 10 ^ 16 * (below + 2) := by
    have : Magnitude.hidden = 2 ^ 52 := rfl
    split_ifs at chosen <;> omega
  have width :
      (4 * mantissa + 2) * scale - (4 * mantissa - below) * scale = (below + 2) * scale := by
    rw [← Nat.sub_mul]
    congr 1
    omega
  rw [width, ← Nat.mul_assoc]
  refine ⟨?_, ?_, ?_, ?_, ?_⟩
  · calc 2 = 2 * 1 := rfl
      _ ≤ (4 * mantissa - below) * scale := Nat.mul_le_mul (by omega) scalePos
  · calc 4 = 4 * 1 := rfl
      _ ≤ 4 * mantissa * scale := Nat.mul_le_mul (by omega) scalePos
  · exact Nat.mul_lt_mul_of_pos_right (by omega) scalePos
  · exact Nat.mul_lt_mul_of_pos_right (by omega) scalePos
  · exact Nat.mul_lt_mul_of_pos_right digits scalePos

theorem Interval.of_high_lt {x : Magnitude} (canonical : x.Canonical) :
    (Interval.of x).high < 10 ^ 400 * quarters := by
  have less := canonical.mantissa_lt
  have scale : 2 ^ x.shift ≤ 2 ^ 2045 := by
    have := canonical.shift_le
    gcongr
    decide
  calc (Interval.of x).high = (4 * x.mantissa + 2) * 2 ^ x.shift := by
        simp only [Interval.of, Nat.pow_eq]
    _ ≤ (8 * Magnitude.hidden) * 2 ^ 2045 := Nat.mul_le_mul (by omega) scale
    _ < 10 ^ 400 * quarters := by decide +kernel

/-! ## The shortest decimal lies in the interval -/

theorem strip_value (rounds : Nat) (d : Decimal) : (strip rounds d).value = d.value := by
  induction rounds generalizing d with
  | zero => rfl
  | succ rounds ih =>
    unfold strip
    split
    · rename_i zero
      rw [ih]
      have digits : d.digits / 10 * 10 = d.digits :=
        Nat.div_mul_cancel (Nat.dvd_of_mod_eq_zero zero)
      have cast : ((d.digits / 10 : Nat) : ℚ) * 10 = d.digits := by exact_mod_cast digits
      simp only [value]
      rw [zpow_add_one₀ (by norm_num), ← cast]
      ring
    · rfl

theorem shortest_contained {x : Magnitude} (canonical : x.Canonical) (pos : 0 < x.mantissa) :
    (Interval.of x).Contains (shortest x).value := by
  obtain ⟨-, some, low, high, wide⟩ := Interval.of_wide canonical pos
  unfold shortest
  rw [if_neg pos.ne']
  dsimp only
  generalize search : (List.findSome? _ _) = found
  cases found with
  | some d =>
    obtain ⟨more, _, chosen⟩ := List.exists_of_findSome?_eq_some search
    obtain ⟨digits, grid, rfl⟩ := Option.map_eq_some_iff.mp chosen
    rw [Option.getD_some, strip_value]
    exact onGrid?_contained grid
  | none =>
    have missed := List.findSome?_eq_none_iff.mp search 16 (by decide)
    refine absurd (Option.map_eq_none_iff.mp missed) (onGrid?_ne_none low high ?_)
    have lead := leadingExponent_le some
    have width : ((Interval.of x).middle : ℚ)
        < 10 ^ 16 * ((Interval.of x).high - (Interval.of x).low) := by
      rw [← Nat.cast_sub (low.trans high).le]
      exact_mod_cast wide
    have fine : (10 : ℚ) ^ (leadingExponent (Interval.of x).middle - (16 : Nat)) * 10 ^ 16
        = 10 ^ leadingExponent (Interval.of x).middle := by
      rw [zpow_sub₀ (by norm_num), zpow_natCast]
      field_simp
    rw [← fine] at lead
    linarith

/-! ## Reading decimals in an interval -/

theorem value_bounds {d : Decimal} (some : 0 < d.digits) :
    (10 : ℚ) ^ (d.exponent + (Nat.toDigits 10 d.digits).length - 1) ≤ d.value ∧
      d.value < 10 ^ (d.exponent + (Nat.toDigits 10 d.digits).length) := by
  obtain ⟨low, high⟩ := length_toDigits_bounds some
  have filled : 0 < (Nat.toDigits 10 d.digits).length := Nat.length_toDigits_pos
  unfold value
  generalize (Nat.toDigits 10 d.digits).length = length at *
  obtain ⟨length, rfl⟩ := Nat.exists_eq_succ_of_ne_zero filled.ne'
  have powerPos : (0 : ℚ) < 10 ^ d.exponent := by positivity
  have lowCast : (10 : ℚ) ^ length ≤ d.digits := by exact_mod_cast low
  have highCast : (d.digits : ℚ) < 10 ^ (length + 1) := by exact_mod_cast high
  have first : d.exponent + (length.succ : Nat) - 1 = length + d.exponent := by omega
  have last : d.exponent + (length.succ : Nat) = (length + 1 : Nat) + d.exponent := by omega
  rw [first, last, zpow_add₀ (by norm_num), zpow_add₀ (by norm_num), zpow_natCast, zpow_natCast]
  exact ⟨mul_le_mul_of_nonneg_right lowCast powerPos.le, mul_lt_mul_of_pos_right highCast powerPos⟩

theorem toBits_eq_bitsOfRatio {d : Decimal} (some : 0 < d.digits)
    (low : -400 ≤ d.exponent + (Nat.toDigits 10 d.digits).length)
    (high : d.exponent + (Nat.toDigits 10 d.digits).length ≤ 400) :
    d.toBits
      = Magnitude.bitsOfRatio (d.digits * (power d.exponent).1) (power d.exponent).2 := by
  unfold toBits
  dsimp only
  rw [if_neg (by omega), if_neg (by omega)]
  cases d.exponent with
  | ofNat e => rfl
  | negSucc e => rw [power, Nat.mul_one]

theorem toBits_of_contained {x : Magnitude} (canonical : x.Canonical) (pos : 0 < x.mantissa)
    {d : Decimal} (inside : (Interval.of x).Contains d.value) : d.toBits = x.toBits := by
  obtain ⟨two_le, -⟩ := Interval.of_wide canonical pos
  have lowest : (2 : ℚ) ≤ (Interval.of x).low := by exact_mod_cast two_le
  have highest : ((Interval.of x).high : ℚ) < 10 ^ 400 * quarters := by
    exact_mod_cast Interval.of_high_lt canonical
  have quartersPos : (0 : ℚ) < quarters := by exact_mod_cast quarters_pos
  obtain ⟨low, high⟩ := inside.bounds
  have some : 0 < d.digits := by
    by_contra none
    have zero : d.value = 0 := by simp [value, Nat.eq_zero_of_not_pos none]
    rw [zero, zero_mul] at low
    linarith
  obtain ⟨first, last⟩ := value_bounds some
  have notTiny : -400 ≤ d.exponent + (Nat.toDigits 10 d.digits).length := by
    by_contra less
    have tens : quarters ≤ 10 ^ 401 := by decide +kernel
    have tiny : ((10 : ℚ) ^ (401 : Nat))⁻¹ * quarters ≤ 1 := by
      rw [inv_mul_le_iff₀ (by positivity), mul_one]
      exact_mod_cast tens
    have small : d.value ≤ ((10 : ℚ) ^ (401 : Nat))⁻¹ := by
      rw [← zpow_natCast, ← zpow_neg]
      exact last.le.trans (zpow_le_zpow_right₀ (by norm_num) (by omega))
    have := mul_le_mul_of_nonneg_right small quartersPos.le
    exact absurd ((lowest.trans low).trans (this.trans tiny)) (by norm_num)
  have notHuge : d.exponent + (Nat.toDigits 10 d.digits).length ≤ 400 := by
    by_contra more
    have : (10 : ℚ) ^ (400 : Int) ≤ d.value :=
      (zpow_le_zpow_right₀ (by norm_num) (by omega)).trans first
    have : (10 : ℚ) ^ 400 * quarters ≤ d.value * quarters :=
      mul_le_mul_of_nonneg_right this quartersPos.le
    exact absurd (this.trans high) (not_le.mpr highest)
  rw [toBits_eq_bitsOfRatio some notTiny notHuge]
  exact Magnitude.bitsOfRatio_of_holds canonical (power_pos _).2
    (Interval.holds_power_iff.mpr inside)

end Sapling.Decimal
