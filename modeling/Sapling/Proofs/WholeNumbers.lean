import Sapling.Proofs.NumberText

/-!
# Whole numbers as doubles

A whole number is written with its decimal digits (`toList_toString`).  Read as a double, one of at
most 128 bits is never out of range, and one of at most 53 bits keeps its value
(`Number.truncate?_whole`).
-/

set_option autoImplicit false

namespace Sapling

theorem nearest_mul (q : Nat) {den : Nat} (pos : 0 < den) : nearest (q * den) den = q := by
  simp [nearest, Nat.mul_div_cancel q pos, pos]

namespace Magnitude

theorem one_eq {places : Nat} (same : places = 1074) : one = 2 ^ places := by
  rw [same]
  decide +kernel

theorem bitsOfRatio_lt {n : Nat} (fits : n < 2 ^ 128) : bitsOfRatio n 1 < infinityBits := by
  have hiddenPos := hidden_pos
  have hidden_eq : hidden = 2 ^ 52 := rfl
  let shift := (n * one / 1).log2 + 1 - 53
  obtain ⟨places, isPlaces⟩ : ∃ places, places = 1074 := ⟨_, rfl⟩
  have size : n * one < 2 ^ (128 + places) := by
    rw [one_eq isPlaces, Nat.pow_add]
    exact Nat.mul_lt_mul_of_pos_right fits (Nat.two_pow_pos places)
  have shift_le : shift ≤ 1149 := by
    by_cases zero : n * one = 0
    · simp [shift, zero]
    · have := (Nat.log2_lt zero).mpr size
      simp only [shift, Nat.div_one]
      omega
  have quotient : n * one / 2 ^ shift < 2 * hidden := by
    have below : n * one < 2 ^ (53 + shift) := by
      refine Nat.lt_of_lt_of_le Nat.lt_log2_self (Nat.pow_le_pow_right (by decide) ?_)
      simp only [shift, Nat.div_one]
      omega
    rw [Nat.div_lt_iff_lt_mul (by positivity), hidden_eq, ← Nat.pow_succ', ← Nat.pow_add]
    exact below
  have rounded : nearest (n * one) (2 ^ shift) ≤ 2 * hidden := by
    rcases nearest_eq_or (n * one) (2 ^ shift) with down | up <;> omega
  have bits : shift * hidden + nearest (n * one) (2 ^ shift) < infinityBits := by
    have := Nat.mul_le_mul_right hidden shift_le
    unfold infinityBits
    omega
  refine Nat.lt_of_le_of_lt (Nat.min_le_right _ _) ?_
  simpa [toBits, shift] using bits

/-- A number of at most 53 bits, shifted so that it has 53. -/
def whole (n : Nat) : Magnitude := ⟨n * 2 ^ (52 - n.log2), 1022 + n.log2⟩

section Whole
variable {n : Nat} (pos : 0 < n) (small : n < 2 * hidden)
include pos small

theorem log2_le_of_lt : n.log2 ≤ 52 := by
  have := (Nat.log2_lt pos.ne').mpr (show n < 2 ^ 53 from small)
  omega

theorem whole_canonical : (whole n).Canonical := by
  have low := log2_le_of_lt pos small
  have split : n.log2 + (52 - n.log2) = 52 := by omega
  constructor
  · show n * 2 ^ (52 - n.log2) < 2 * 2 ^ 52
    calc n * 2 ^ (52 - n.log2) < 2 ^ (n.log2 + 1) * 2 ^ (52 - n.log2) :=
          Nat.mul_lt_mul_of_pos_right Nat.lt_log2_self (by positivity)
      _ = 2 * 2 ^ 52 := by rw [← Nat.pow_add, Nat.add_right_comm, split, Nat.pow_succ']
  · intro _
    show 2 ^ 52 ≤ n * 2 ^ (52 - n.log2)
    calc 2 ^ 52 = 2 ^ n.log2 * 2 ^ (52 - n.log2) := by rw [← Nat.pow_add, split]
      _ ≤ n * 2 ^ (52 - n.log2) := Nat.mul_le_mul_right _ (Nat.log2_self_le pos.ne')
  · show 1022 + n.log2 ≤ 2045
    omega

theorem whole_units : (whole n).units = n * one := by
  have low := log2_le_of_lt pos small
  have split : 52 - n.log2 + (1022 + n.log2) = 1074 := by omega
  rw [units, whole, Nat.pow_eq, Nat.mul_assoc, ← Nat.pow_add, one_eq split]

theorem bitsOfRatio_whole : bitsOfRatio n 1 = (whole n).toBits := by
  have canonical := whole_canonical pos small
  have units := whole_units pos small
  have wide : 0 < 2 ^ (whole n).shift := by positivity
  simp only [Magnitude.units, Nat.pow_eq] at units
  refine bitsOfRatio_eq Nat.one_pos (fun shifted => ?_) ?_ ?_ canonical.toBits_lt
  · rw [Nat.mul_one, ← units]
    exact Nat.mul_le_mul_right _ (canonical.full shifted)
  · rw [Nat.mul_one, ← units]
    exact Nat.mul_lt_mul_of_pos_right canonical.mantissa_lt wide
  · rw [Nat.one_mul, ← units]
    exact nearest_mul _ wide

end Whole
end Magnitude

namespace Number

theorem toBits_ofSignAndBits (negative : Bool) {bits : Nat}
    (finite : bits < Magnitude.infinityBits) :
    (ofSignAndBits negative bits).toBits.toNat = if negative then bits + signBit else bits := by
  have infinity : Magnitude.infinityBits = 2047 * 2 ^ 52 := rfl
  have sign : signBit = 2 ^ 63 := rfl
  let whole := if negative then bits + signBit else bits
  have value : whole.toUInt64.toNat = whole := by
    refine UInt64.toNat_ofNat_of_lt' ?_
    show whole < 2 ^ 64
    cases negative <;> simp [whole] <;> omega
  have valid : Float.Model.Format.binary64.Valid whole.toUInt64.toBitVec := by
    refine ⟨fun full _ => ?_⟩
    rw [Float.Model.UnpackedFloat.unpackExponent_def] at full
    have number := congrArg BitVec.toNat full
    rw [BitVec.extractLsb'_toNat, Nat.shiftRight_eq_div_pow] at number
    have same : whole / 2 ^ 52 % 2 ^ 11 = 2047 := value ▸ number
    exfalso
    cases negative <;> simp [whole] at same <;> omega
  have spelled : Float.ofBits whole.toUInt64 = ⟨⟨whole.toUInt64, valid⟩⟩ :=
    Float.ofBits_toBits ⟨⟨whole.toUInt64, valid⟩⟩
  show (Float.ofBits whole.toUInt64).toBits.toNat = whole
  rw [spelled]
  exact value

theorem magnitude?_ofSignAndBits (negative : Bool) {bits : Nat}
    (finite : bits < Magnitude.infinityBits) :
    magnitude? (ofSignAndBits negative bits) = Magnitude.ofBits? bits := by
  have infinity : Magnitude.infinityBits = 2047 * 2 ^ 52 := rfl
  have sign : signBit = 2 ^ 63 := rfl
  rw [magnitude?, toBits_ofSignAndBits negative finite]
  congr 1
  have less : bits < signBit := by omega
  cases negative <;> simp [Nat.mod_eq_of_lt less]

theorem isNegative_ofSignAndBits (negative : Bool) {bits : Nat}
    (finite : bits < Magnitude.infinityBits) :
    isNegative (ofSignAndBits negative bits) = negative := by
  have infinity : Magnitude.infinityBits = 2047 * 2 ^ 52 := rfl
  have sign : signBit = 2 ^ 63 := rfl
  rw [isNegative, toBits_ofSignAndBits negative finite]
  cases negative with
  | true => simp
  | false =>
    simp
    omega

/-! ## Digits -/

theorem toList_toString (n : Int) :
    (toString n).toList = sign (decide (n < 0)) ++ Nat.toDigits 10 n.natAbs := by
  cases n with
  | ofNat n =>
    show (String.ofList (Nat.toDigits 10 n)).toList = _
    have notNegative : ¬ Int.ofNat n < 0 := by simp
    rw [String.toList_ofList, sign, decide_eq_false notNegative]
    rfl
  | negSucc n =>
    show ("-" ++ String.ofList (Nat.toDigits 10 (n + 1))).toList = _
    have digits : (String.ofList (Nat.toDigits 10 (n + 1))).toList = Nat.toDigits 10 (n + 1) :=
      String.toList_ofList
    rw [String.toList_append, digits, decide_eq_true (Int.negSucc_lt_zero n)]
    rfl

theorem toBits_whole {n : Nat} (fits : n < 2 ^ 128) :
    (Decimal.mk n 0).toBits = Magnitude.bitsOfRatio n 1 := by
  rcases Nat.eq_zero_or_pos n with rfl | pos
  · decide +kernel
  · obtain ⟨first, _⟩ := Decimal.length_toDigits_bounds pos
    have short : (Nat.toDigits 10 n).length ≤ 400 := by
      by_contra long
      have more : 10 ^ 39 ≤ 10 ^ ((Nat.toDigits 10 n).length - 1) :=
        Nat.pow_le_pow_right (by decide) (by omega)
      omega
    have read := Decimal.toBits_eq_bitsOfRatio (d := ⟨n, 0⟩) pos (by dsimp only; omega)
      (by dsimp only; omega)
    rw [read]
    simp [Decimal.power]

theorem float?_whole {n : Nat} (fits : n < 2 ^ 128) :
    float? (toString n).toList = some (ofSignAndBits false (Magnitude.bitsOfRatio n 1)) := by
  have spelled : (toString n).toList = sign false ++ (Nat.toDigits 10 n ++ []) := by
    rw [List.append_nil]
    exact toList_toString n
  have decimal : decimal? (sign false ++ (Nat.toDigits 10 n ++ [])) = _ :=
    decimal?_whole Nat.toDigits_ne_nil isDigit_toDigits (.inl rfl)
  rw [Nat.ofDigitChars_toDigits (by decide) (by decide)] at decimal
  rw [float?, spelled, decimal]
  simp only [Option.bind_eq_bind, Option.bind_some, finite?, toBits_whole fits,
    if_pos (Magnitude.bitsOfRatio_lt fits)]

theorem truncate?_whole {n : Nat} (small : n < 2 * Magnitude.hidden) :
    truncate? (ofSignAndBits false (Magnitude.bitsOfRatio n 1)) = some (n : Int) := by
  have fits : n < 2 ^ 128 := Nat.lt_trans small (by decide)
  have finite := Magnitude.bitsOfRatio_lt fits
  have onePos : 0 < Magnitude.one := by decide +kernel
  rw [truncate?, magnitude?_ofSignAndBits false finite, isNegative_ofSignAndBits false finite]
  rcases Nat.eq_zero_or_pos n with rfl | pos
  · decide +kernel
  · have spelled : Magnitude.ofBits? (Magnitude.bitsOfRatio n 1) = some (Magnitude.whole n) :=
      Magnitude.ofBits?_eq_some_iff.mpr
        ⟨Magnitude.whole_canonical pos small, (Magnitude.bitsOfRatio_whole pos small).symm⟩
    rw [spelled, Option.map_some, Magnitude.whole_units pos small, Nat.mul_div_cancel n onePos]
    rfl

end Number
end Sapling
