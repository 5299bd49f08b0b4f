import Mathlib.Tactic.Linarith
import Mathlib.Tactic.Ring
import Sapling.Number.Spelling

/-!
# Rounding to doubles

A magnitude is canonical when it has all the bits it can have: either its mantissa fills 53 bits or
its shift is zero.  Those are the magnitudes that bits spell (`Magnitude.ofBits?_eq_some_iff`).

What lies in the interval of a canonical magnitude rounds to it (`Magnitude.bitsOfRatio_of_holds`).
There is one awkward place, just below a power of two: there the shift of a number in the interval
is one less than that of the magnitude, and its mantissa is rounded up to the next power of two.
-/

set_option autoImplicit false

namespace Sapling

/-- A number within half of `q` rounds to it; one exactly half away does if `q` is even. -/
theorem nearest_eq {num den q : Nat} (pos : 0 < den) (low : 2 * (q * den) ≤ 2 * num + den)
    (high : 2 * num ≤ 2 * (q * den) + den)
    (tie : q % 2 = 1 → 2 * (q * den) < 2 * num + den ∧ 2 * num < 2 * (q * den) + den) :
    nearest num den = q := by
  have split := Nat.div_add_mod num den
  have less := Nat.mod_lt num pos
  unfold nearest
  generalize num / den = k at split ⊢
  generalize num % den = r at split less ⊢
  have near : q = k ∨ q = k + 1 := by
    rcases Nat.lt_trichotomy q k with below | same | above
    · obtain ⟨more, rfl⟩ := Nat.exists_eq_add_of_lt below
      have : (q + more + 1) * den = q * den + more * den + den := by ring
      nlinarith
    · exact .inl same
    · obtain ⟨more, rfl⟩ := Nat.exists_eq_add_of_lt above
      have expand : (k + more + 1) * den = k * den + more * den + den := by ring
      have none : more = 0 := by
        by_contra some
        have : den ≤ more * den := Nat.le_mul_of_pos_left den (Nat.pos_of_ne_zero some)
        nlinarith
      exact .inr (by rw [none])
  have multiple : den * k = k * den := Nat.mul_comm den k
  rcases near with rfl | rfl
  · dsimp only
    split_ifs <;> omega
  · have expand : (k + 1) * den = k * den + den := by ring
    dsimp only
    split_ifs <;> omega

theorem nearest_eq_or (num den : Nat) :
    nearest num den = num / den ∨ nearest num den = num / den + 1 := by
  unfold nearest
  dsimp only
  split_ifs <;> simp

namespace Magnitude

/-! ## Canonical magnitudes -/

structure Canonical (x : Magnitude) : Prop where
  mantissa_lt : x.mantissa < 2 * hidden
  full : 0 < x.shift → hidden ≤ x.mantissa
  shift_le : x.shift ≤ 2045

theorem hidden_pos : 0 < hidden := by decide

theorem Canonical.toBits_lt {x : Magnitude} (canonical : x.Canonical) :
    x.toBits < infinityBits := by
  have mantissa := canonical.mantissa_lt
  have shift : x.shift * hidden ≤ 2045 * hidden := Nat.mul_le_mul_right _ canonical.shift_le
  unfold toBits infinityBits
  omega

theorem ofBits?_eq_some_iff {bits : Nat} {x : Magnitude} :
    ofBits? bits = some x ↔ x.Canonical ∧ x.toBits = bits := by
  have pos := hidden_pos
  constructor
  · intro spelled
    unfold ofBits? at spelled
    split at spelled
    · cases spelled
    · rename_i finite
      have split := Nat.div_add_mod bits hidden
      have less := Nat.mod_lt bits pos
      have field : bits / hidden < 2047 := by
        rw [Nat.div_lt_iff_lt_mul pos]
        unfold infinityBits at finite
        omega
      dsimp only at spelled
      split at spelled
      · rename_i zero
        cases spelled
        rw [zero] at split
        have small : bits < 2 * hidden := by omega
        exact ⟨⟨small, nofun, Nat.zero_le _⟩, by simp [toBits]⟩
      · rename_i normal
        cases spelled
        refine ⟨⟨by dsimp only; omega, fun _ => Nat.le_add_right _ _, by dsimp only; omega⟩, ?_⟩
        obtain ⟨field, same⟩ := Nat.exists_eq_succ_of_ne_zero normal
        rw [same] at split
        simp only [toBits, same, Nat.succ_eq_add_one, Nat.add_sub_cancel]
        rw [Nat.succ_eq_add_one] at split
        linarith [Nat.mul_comm hidden (field + 1), Nat.succ_mul field hidden]
  · rintro ⟨canonical, rfl⟩
    have finite := canonical.toBits_lt
    rcases x with ⟨mantissa, shift⟩
    have less : mantissa < 2 * hidden := canonical.mantissa_lt
    unfold ofBits?
    rw [if_neg (Nat.not_le.mpr finite)]
    by_cases normal : hidden ≤ mantissa
    · obtain ⟨rest, rfl⟩ := Nat.exists_eq_add_of_le normal
      have small : rest < hidden := by omega
      have whole : toBits ⟨hidden + rest, shift⟩ = rest + (shift + 1) * hidden := by
        simp only [toBits]
        ring
      have field : toBits ⟨hidden + rest, shift⟩ / hidden = shift + 1 := by
        rw [whole, Nat.add_mul_div_right _ _ pos, Nat.div_eq_of_lt small, Nat.zero_add]
      have fraction : toBits ⟨hidden + rest, shift⟩ % hidden = rest := by
        rw [whole, Nat.add_mul_mod_self_right, Nat.mod_eq_of_lt small]
      simp [field, fraction]
    · have zero : shift = 0 := by
        by_contra some
        exact normal (canonical.full (Nat.pos_of_ne_zero some))
      subst zero
      have none : mantissa / hidden = 0 := Nat.div_eq_of_lt (Nat.not_le.mp normal)
      simp [toBits, none]

/-! ## Numbers in an interval -/

theorem shift_eq {whole shift : Nat} (low : 0 < shift → hidden * 2 ^ shift ≤ whole)
    (high : whole < 2 * hidden * 2 ^ shift) : whole.log2 + 1 - 53 = shift := by
  have hidden_eq : hidden = 2 ^ 52 := rfl
  rw [hidden_eq] at low high
  have below : whole ≠ 0 → whole.log2 < 53 + shift := fun some =>
    (Nat.log2_lt some).mpr (by rw [pow_add]; linarith)
  have above : 0 < shift → 52 + shift ≤ whole.log2 := by
    intro positive
    have some : whole ≠ 0 := by
      have := low positive
      have : 0 < 2 ^ 52 * 2 ^ shift := by positivity
      omega
    exact (Nat.le_log2 some).mpr (by rw [pow_add]; exact low positive)
  by_cases none : whole = 0
  · subst none
    have : shift = 0 := by
      by_contra some
      have := above (Nat.pos_of_ne_zero some)
      simp at this
    simp [this]
  · have := below none
    omega

theorem bitsOfRatio_eq {num den q shift : Nat} (pos : 0 < den)
    (low : 0 < shift → hidden * (2 ^ shift * den) ≤ num * one)
    (high : num * one < 2 * hidden * (2 ^ shift * den))
    (near : nearest (num * one) (den * 2 ^ shift) = q) (finite : toBits ⟨q, shift⟩ < infinityBits) :
    bitsOfRatio num den = toBits ⟨q, shift⟩ := by
  have shifted : (num * one / den).log2 + 1 - 53 = shift := by
    refine shift_eq (fun positive => ?_) ?_
    · rw [Nat.le_div_iff_mul_le pos, Nat.mul_assoc]
      exact low positive
    · rw [Nat.div_lt_iff_lt_mul pos, Nat.mul_assoc]
      exact high
  simp only [bitsOfRatio, Nat.pow_eq, shifted, near]
  exact Nat.min_eq_right finite.le

end Magnitude

/-- The bounds of an interval in units; `below` is 1 right above a power of two, and 2 elsewhere. -/
theorem Decimal.Interval.bounds_of_holds {x : Magnitude} {num den : Nat}
    (inside : (Interval.of x).holds num den = true) :
    ∃ below, below ≤ 2 ∧ (x.mantissa = Magnitude.hidden → 0 < x.shift → below = 1) ∧
      4 * x.mantissa * (2 ^ x.shift * den)
        ≤ 4 * (num * Magnitude.one) + below * (2 ^ x.shift * den) ∧
      4 * (num * Magnitude.one) ≤ (4 * x.mantissa + 2) * (2 ^ x.shift * den) ∧
      (x.mantissa % 2 = 1 →
        4 * x.mantissa * (2 ^ x.shift * den)
          < 4 * (num * Magnitude.one) + below * (2 ^ x.shift * den) ∧
        4 * (num * Magnitude.one) < (4 * x.mantissa + 2) * (2 ^ x.shift * den)) := by
  rcases x with ⟨mantissa, shift⟩
  obtain ⟨below, chosen⟩ :
      ∃ below, below = if mantissa = Magnitude.hidden ∧ 0 < shift then 1 else 2 := ⟨_, rfl⟩
  simp only [Interval.holds, Interval.of, quarters, Nat.pow_eq, ← chosen] at inside
  have value : num * (4 * Magnitude.one) = 4 * (num * Magnitude.one) := by ring
  have cut : 4 * mantissa * (2 ^ shift * den)
      ≤ (4 * mantissa - below) * 2 ^ shift * den + below * (2 ^ shift * den) := by
    have : 4 * mantissa ≤ (4 * mantissa - below) + below := by omega
    calc 4 * mantissa * (2 ^ shift * den)
        ≤ ((4 * mantissa - below) + below) * (2 ^ shift * den) := Nat.mul_le_mul_right _ this
      _ = _ := by ring
  simp only [value, Nat.mul_assoc (4 * mantissa + 2)] at inside
  refine ⟨below, by split_ifs at chosen <;> omega, ?_, ?_⟩
  · intro filled positive
    rw [chosen, if_pos ⟨filled, positive⟩]
  · split at inside
    · simp only [decide_eq_true_eq, Bool.and_eq_true] at *
      refine ⟨by linarith, inside.2, fun odd => by omega⟩
    · simp only [decide_eq_true_eq, Bool.and_eq_true] at inside
      exact ⟨by linarith, inside.2.le, fun _ => ⟨by linarith, inside.2⟩⟩

/-- What lies in the interval of a magnitude rounds to it. -/
theorem Magnitude.bitsOfRatio_of_holds {x : Magnitude} (canonical : x.Canonical) {num den : Nat}
    (pos : 0 < den) (inside : (Decimal.Interval.of x).holds num den = true) :
    bitsOfRatio num den = x.toBits := by
  obtain ⟨below, small, halved, low, high, odd⟩ := Decimal.Interval.bounds_of_holds inside
  have finite := canonical.toBits_lt
  have less := canonical.mantissa_lt
  have full := canonical.full
  rcases x with ⟨mantissa, shift⟩
  dsimp only at *
  have widthPos : 0 < 2 ^ shift * den := by positivity
  have width : den * 2 ^ shift = 2 ^ shift * den := Nat.mul_comm _ _
  by_cases filled : 0 < shift → hidden * (2 ^ shift * den) ≤ num * one
  · refine bitsOfRatio_eq pos filled ?_ ?_ finite
    · have : (mantissa + 1) * (2 ^ shift * den) ≤ 2 * hidden * (2 ^ shift * den) :=
        Nat.mul_le_mul_right _ less
      linarith
    · rw [width]
      have : below * (2 ^ shift * den) ≤ 2 * (2 ^ shift * den) := Nat.mul_le_mul_right _ small
      refine nearest_eq widthPos ?_ ?_ ?_
      · linarith
      · linarith
      · intro tie
        exact ⟨by linarith [(odd tie).1], by linarith [(odd tie).2]⟩
  · -- just below a power of two: one place less, and the mantissa is rounded up to that power
    obtain ⟨positive, short⟩ := Classical.not_imp.mp filled
    have bottom : mantissa = hidden := by
      refine Nat.le_antisymm ?_ (full positive)
      by_contra more
      have : (hidden + 1) * (2 ^ shift * den) ≤ mantissa * (2 ^ shift * den) :=
        Nat.mul_le_mul_right _ (by omega)
      have : below * (2 ^ shift * den) ≤ 2 * (2 ^ shift * den) := Nat.mul_le_mul_right _ small
      linarith
    have one_below : below = 1 := halved bottom positive
    obtain ⟨shift, rfl⟩ := Nat.exists_eq_succ_of_ne_zero positive.ne'
    subst bottom one_below
    have half : 2 ^ (shift + 1) * den = 2 * (2 ^ shift * den) := by ring
    have hiddenPos := hidden_pos
    have halfPos : 0 < 2 ^ shift * den := by positivity
    have same : toBits ⟨hidden, shift + 1⟩ = toBits ⟨2 * hidden, shift⟩ := by
      simp only [toBits]
      ring
    rw [Nat.succ_eq_add_one, half] at low high short
    rw [same] at finite ⊢
    refine bitsOfRatio_eq pos ?_ ?_ ?_ finite
    · intro _
      have : 1 * (2 ^ shift * den) ≤ hidden * (2 ^ shift * den) := Nat.mul_le_mul_right _ hiddenPos
      linarith
    · linarith
    · rw [Nat.mul_comm den]
      refine nearest_eq halfPos ?_ ?_ ?_
      · linarith
      · linarith
      · omega

end Sapling
