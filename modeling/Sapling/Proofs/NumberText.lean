import Mathlib
import Sapling.Proofs.Shortest

/-!
# Reading back the texts of doubles

The text of a finite double is read as that double (`float?_text`), so that different doubles have
different texts.  A double that is not finite is one of three (`eq_of_magnitude?_eq_none`), since
there is one double only that is no number.
-/

set_option autoImplicit false

namespace Sapling.Number

/-! ## Digits -/

theorem digitIn?_of_isDigit {c : Char} (digit : c.isDigit = true) :
    digitIn? 10 c = some (c.toNat - 48) := by
  have bounds : 48 ≤ c.toNat ∧ c.toNat ≤ 57 := by
    simp only [Char.isDigit, Bool.and_eq_true, decide_eq_true_eq, ge_iff_le,
      UInt32.le_iff_toNat_le] at digit
    exact digit
  have small : c.toNat - 48 < 10 := by omega
  simp [digitIn?, digit, small]

theorem digitsIn?_of_isDigit {digits : List Char} (all : ∀ c ∈ digits, c.isDigit = true) :
    digitsIn? 10 digits = some (Nat.ofDigitChars 10 digits 0) := by
  unfold digitsIn?
  generalize 0 = start
  induction digits generalizing start with
  | nil => rfl
  | cons c rest ih =>
    have first : (do return (← some start) * 10 + (← digitIn? 10 c))
        = some (10 * start + (c.toNat - '0'.toNat)) := by
      rw [digitIn?_of_isDigit (all c List.mem_cons_self), Nat.mul_comm 10]
      rfl
    rw [Nat.ofDigitChars_cons, List.foldl_cons, first]
    exact ih (fun d there => all d (List.mem_cons_of_mem _ there)) _

theorem isDigit_of_digitIn? {c : Char} {value : Nat} (read : digitIn? 10 c = some value) :
    c.isDigit = true := by
  by_contra other
  -- the letters stand for ten and more
  have big (lower upper : Char) (offset : Nat) (least : offset + 10 ≤ lower.toNat)
      (letter : lower ≤ c ∧ c ≤ upper) : ¬ c.toNat - offset < 10 := by
    have above : lower.toNat ≤ c.toNat := letter.1
    omega
  simp only [digitIn?, other, if_false] at read
  split at read
  case isTrue letter => simp [Option.filter, big 'a' 'z' 87 (by decide) letter] at read
  case isFalse =>
    split at read
    case isTrue letter => simp [Option.filter, big 'A' 'Z' 55 (by decide) letter] at read
    case isFalse => cases read

theorem isDigit_of_digitsIn? {digits : List Char} {value : Nat}
    (read : digitsIn? 10 digits = some value) : ∀ c ∈ digits, c.isDigit = true := by
  have stuck (rest : List Char) :
      rest.foldl (fun value c => do return (← value) * 10 + (← digitIn? 10 c)) none = none := by
    induction rest with
    | nil => rfl
    | cons c rest ih => exact ih
  unfold digitsIn? at read
  generalize 0 = start at read
  induction digits generalizing start with
  | nil => simp
  | cons c rest ih =>
    rw [List.foldl_cons] at read
    cases digit : digitIn? 10 c with
    | none =>
      rw [digit] at read
      exact absurd ((stuck rest).symm.trans read) (by simp)
    | some number =>
      rw [digit] at read
      exact List.forall_mem_cons.mpr ⟨isDigit_of_digitIn? digit, ih _ read⟩

theorem isDigit_toDigits {n : Nat} : ∀ c ∈ Nat.toDigits 10 n, c.isDigit = true :=
  fun _ there => Nat.isDigit_of_mem_toDigits (by decide) (by decide) there

theorem isDigit_replicate_zero {count : Nat} :
    ∀ c ∈ List.replicate count '0', c.isDigit = true := by
  intro c there
  rw [List.eq_of_mem_replicate there]
  rfl

/-! ## Decimals -/

def sign (negative : Bool) : List Char := if negative then ['-'] else []

theorem signed_sign (negative : Bool) {c : Char} (rest : List Char) (digit : c.isDigit = true) :
    signed (sign negative ++ c :: rest) = (negative, c :: rest) := by
  cases negative with
  | true => rfl
  | false =>
    simp only [sign, Bool.false_eq_true, if_false, List.nil_append]
    unfold signed
    split
    · simp_all [Char.isDigit]
    · simp_all [Char.isDigit]
    · rfl

theorem of_signed_false {text rest : List Char} (split : signed text = (false, rest)) :
    text = rest ∨ text = '+' :: rest := by
  unfold signed at split
  split at split <;> cases split
  · exact .inr rfl
  · exact .inl rfl

/-- The exponents that say nothing. -/
def IdleExponent (tail : List Char) : Prop := tail = [] ∨ tail = ['e', '0']

theorem IdleExponent.exponentPart? {tail : List Char} (idle : IdleExponent tail) :
    exponentPart? tail = some 0 := by
  rcases idle with rfl | rfl <;> decide

theorem IdleExponent.ends {tail : List Char} (idle : IdleExponent tail) :
    tail.head?.all (!·.isDigit) := by
  rcases idle with rfl | rfl <;> rfl

theorem takeWhile_digits {digits tail : List Char} (all : ∀ c ∈ digits, c.isDigit = true)
    (ends : tail.head?.all (!·.isDigit)) : (digits ++ tail).takeWhile Char.isDigit = digits := by
  rw [List.takeWhile_append_of_pos all]
  cases tail with
  | nil => simp
  | cons c rest => simp_all

theorem decimal?_whole {negative : Bool} {whole tail : List Char} (some : whole ≠ [])
    (all : ∀ c ∈ whole, c.isDigit = true) (idle : IdleExponent tail) :
    decimal? (sign negative ++ (whole ++ tail))
      = .some (negative, ⟨Nat.ofDigitChars 10 whole 0, 0⟩) := by
  have taken : (whole ++ tail).takeWhile Char.isDigit = whole :=
    takeWhile_digits all idle.ends
  have value := digitsIn?_of_isDigit all
  obtain ⟨c, rest, rfl⟩ := List.exists_cons_of_ne_nil some
  have split := signed_sign negative (rest ++ tail) (all c List.mem_cons_self)
  rw [← List.cons_append] at split
  have nothing := idle.exponentPart?
  unfold decimal?
  simp only [split, taken, List.drop_left]
  rcases idle with rfl | rfl <;> simp [nothing, value]

theorem decimal?_pointed (negative : Bool) {whole : List Char} (places : List Char)
    {tail : List Char} (some : whole ≠ [])
    (all : ∀ c ∈ whole, c.isDigit = true) (more : ∀ c ∈ places, c.isDigit = true)
    (idle : IdleExponent tail) :
    decimal? (sign negative ++ (whole ++ '.' :: (places ++ tail)))
      = .some (negative, ⟨Nat.ofDigitChars 10 (whole ++ places) 0, -places.length⟩) := by
  have taken : (whole ++ '.' :: (places ++ tail)).takeWhile Char.isDigit = whole :=
    takeWhile_digits all rfl
  have ends := idle.ends
  have behind : (places ++ tail).takeWhile Char.isDigit = places := takeWhile_digits more ends
  have left : (places ++ tail).dropWhile Char.isDigit = tail := by
    rw [List.dropWhile_append_of_pos more]
    cases tail with
    | nil => rfl
    | cons c rest => simp_all
  have nothing := idle.exponentPart?
  have value := digitsIn?_of_isDigit (List.forall_mem_append.mpr ⟨all, more⟩)
  obtain ⟨c, rest, rfl⟩ := List.exists_cons_of_ne_nil some
  have split := signed_sign negative (rest ++ '.' :: (places ++ tail))
    (all c List.mem_cons_self)
  rw [← List.cons_append] at split
  unfold decimal?
  simp only [split, taken, List.drop_left, behind, left]
  simp only [List.cons_append] at value
  simp [nothing, value]

/-- The text of a decimal is made of digits in front of the point and digits behind it, and these
have the value of the decimal. -/
theorem positional_parts (d : Decimal) :
    ∃ whole places : List Char, whole ≠ [] ∧ (∀ c ∈ whole, c.isDigit = true) ∧
      (∀ c ∈ places, c.isDigit = true) ∧
      (d.positional.toList = whole ++ '.' :: places ∨ places = [] ∧ d.positional.toList = whole) ∧
      Decimal.value ⟨Nat.ofDigitChars 10 (whole ++ places) 0, -places.length⟩ = d.value := by
  have value : Nat.ofDigitChars 10 (Nat.toDigits 10 d.digits) 0 = d.digits :=
    Nat.ofDigitChars_toDigits (by decide) (by decide)
  have filled : Nat.toDigits 10 d.digits ≠ [] := Nat.toDigits_ne_nil
  have all : ∀ c ∈ Nat.toDigits 10 d.digits, c.isDigit = true := isDigit_toDigits
  unfold Decimal.positional Decimal.zeros Decimal.value
  dsimp only
  generalize Nat.toDigits 10 d.digits = digits at *
  cases d.exponent with
  | ofNat e =>
    refine ⟨digits ++ List.replicate e '0', [], by simp [filled],
      List.forall_mem_append.mpr ⟨all, isDigit_replicate_zero⟩, by simp, .inr ⟨rfl, by simp⟩, ?_⟩
    rw [List.append_nil, Nat.ofDigitChars_append, Nat.ofDigitChars_replicate_zero, value]
    push_cast
    simp [mul_comm]
  | negSucc e =>
    dsimp only
    split
    · rename_i inside
      refine ⟨digits.take (digits.length - (e + 1)), digits.drop (digits.length - (e + 1)), ?_,
        fun c there => all c (List.mem_of_mem_take there),
        fun c there => all c (List.mem_of_mem_drop there), .inl (by simp), ?_⟩
      · rw [ne_eq, List.take_eq_nil_iff, not_or]
        exact ⟨by omega, filled⟩
      · rw [List.take_append_drop, value, List.length_drop, Nat.sub_sub_self inside.le]
        rfl
    · rename_i outside
      refine ⟨['0'], List.replicate (e + 1 - digits.length) '0' ++ digits, by simp, by simp,
        List.forall_mem_append.mpr ⟨isDigit_replicate_zero, all⟩, .inl (by simp), ?_⟩
      have same :
          Nat.ofDigitChars 10 (['0'] ++ (List.replicate (e + 1 - digits.length) '0' ++ digits)) 0
            = d.digits := by
        rw [Nat.ofDigitChars_append, Nat.ofDigitChars_append, Nat.ofDigitChars_replicate_zero]
        simpa [Nat.ofDigitChars_cons] using value
      rw [same, List.length_append, List.length_replicate,
        Nat.sub_add_cancel (Nat.not_lt.mp outside)]
      rfl

theorem decimal?_positional (negative : Bool) (d : Decimal) {tail : List Char}
    (idle : IdleExponent tail) :
    ∃ e : Decimal, e.value = d.value ∧
      decimal? (sign negative ++ (d.positional.toList ++ tail)) = some (negative, e) := by
  obtain ⟨whole, places, filled, all, more, spelled, value⟩ := positional_parts d
  refine ⟨_, value, ?_⟩
  rcases spelled with pointed | ⟨rfl, bare⟩
  · rw [pointed, List.append_assoc]
    exact decimal?_pointed negative places filled all more idle
  · rw [bare, decimal?_whole filled all idle]
    simp

theorem positional_chars (d : Decimal) :
    (∃ c rest, c.isDigit = true ∧ d.positional.toList = c :: rest) ∧
      ∀ c ∈ d.positional.toList, c.isDigit = true ∨ c = '.' := by
  obtain ⟨whole, places, filled, all, more, spelled, -⟩ := positional_parts d
  obtain ⟨first, rest, rfl⟩ := List.exists_cons_of_ne_nil filled
  have start := all first List.mem_cons_self
  rcases spelled with pointed | ⟨rfl, bare⟩
  · rw [pointed]
    refine ⟨⟨first, _, start, rfl⟩, fun c there => ?_⟩
    rcases List.mem_append.mp there with front | behind
    · exact .inl (all c front)
    · exact (List.mem_cons.mp behind).elim .inr fun later => .inl (more c later)
  · rw [bare]
    exact ⟨⟨first, rest, start, rfl⟩, fun c there => .inl (all c there)⟩

/-! ## Doubles -/

theorem canonical_of_magnitude? {x : Float} {m : Magnitude} (finite : magnitude? x = some m) :
    m.Canonical ∧ m.toBits = x.toBits.toNat % signBit :=
  Magnitude.ofBits?_eq_some_iff.mp finite

theorem ofSignAndBits_self (x : Float) :
    ofSignAndBits (isNegative x) (x.toBits.toNat % signBit) = x := by
  have size : x.toBits.toNat < 2 * signBit := x.toBits.toNat_lt
  have whole : (if isNegative x then x.toBits.toNat % signBit + signBit
      else x.toBits.toNat % signBit) = x.toBits.toNat := by
    by_cases negative : signBit ≤ x.toBits.toNat
    · have rest : x.toBits.toNat % signBit = x.toBits.toNat - signBit := by
        rw [Nat.mod_eq_sub_mod negative, Nat.mod_eq_of_lt (by omega)]
      simp only [isNegative, negative, decide_true, if_true, rest]
      omega
    · simp only [isNegative, negative, decide_false, Bool.false_eq_true, if_false]
      exact Nat.mod_eq_of_lt (Nat.not_le.mp negative)
  unfold ofSignAndBits
  rw [whole]
  have same : x.toBits.toNat.toUInt64 = x.toBits := UInt64.ofNat_toNat
  rw [same, Float.ofBits_toBits]

theorem finite?_shortest {x : Float} {m : Magnitude} (finite : magnitude? x = some m) {d : Decimal}
    (same : d.value = (Decimal.shortest m).value) : finite? (isNegative x) d = some x := by
  obtain ⟨canonical, bits⟩ := canonical_of_magnitude? finite
  have read : d.toBits = m.toBits := by
    rcases Nat.eq_zero_or_pos m.mantissa with zero | positive
    · have none : m.shift = 0 := by
        by_contra some
        have := canonical.full (Nat.pos_of_ne_zero some)
        have := Magnitude.hidden_pos
        omega
      have digits : d.digits = 0 := by
        have nonzero : (10 : ℚ) ^ d.exponent ≠ 0 := by positivity
        simpa [Decimal.shortest, zero, Decimal.value, nonzero] using same
      simp [Decimal.toBits, digits, Magnitude.toBits, none, zero]
    · -- it need not be the shortest decimal itself, only one of the same value
      exact Decimal.toBits_of_contained canonical positive
        (same ▸ Decimal.shortest_contained canonical positive)
  unfold finite?
  dsimp only
  rw [read, if_pos canonical.toBits_lt, bits, ofSignAndBits_self]

theorem text_toList {x : Float} {m : Magnitude} (finite : magnitude? x = some m) :
    (text x).toList = sign (isNegative x) ++ (Decimal.shortest m).positional.toList := by
  unfold text sign
  simp only [finite]
  cases isNegative x <;> simp

def startsNumeric : List Char → Bool
  | '-' :: c :: _ => c.isDigit
  | c :: _ => c.isDigit
  | [] => false

theorem startsNumeric_sign (negative : Bool) {c : Char} (rest : List Char)
    (digit : c.isDigit = true) : startsNumeric (sign negative ++ c :: rest) = true := by
  cases negative with
  | true => exact digit
  | false =>
    simp only [sign, Bool.false_eq_true, if_false, List.nil_append]
    unfold startsNumeric
    split
    · simp_all [Char.isDigit]
    · simp_all
    · simp_all

theorem startsNumeric_cons {c : Char} {rest : List Char}
    (starts : startsNumeric (c :: rest) = true) : c = '-' ∨ c.isDigit = true := by
  unfold startsNumeric at starts
  split at starts <;> simp_all

theorem startsNumeric_text {x : Float} {m : Magnitude} (finite : magnitude? x = some m)
    (tail : List Char) : startsNumeric ((text x).toList ++ tail) = true := by
  obtain ⟨⟨c, rest, digit, start⟩, -⟩ := positional_chars (Decimal.shortest m)
  rw [text_toList finite, start, List.append_assoc]
  exact startsNumeric_sign _ _ digit

theorem text_chars {x : Float} {m : Magnitude} (finite : magnitude? x = some m) :
    ∀ c ∈ (text x).toList, c.isDigit = true ∨ c = '.' ∨ c = '-' := by
  intro c there
  rw [text_toList finite, List.mem_append] at there
  rcases there with front | number
  · unfold sign at front
    split at front <;> simp_all
  · exact ((positional_chars _).2 c number).imp_right .inl

theorem float?_text {x : Float} {m : Magnitude} (finite : magnitude? x = some m)
    {tail : List Char} (idle : IdleExponent tail) :
    float? ((text x).toList ++ tail) = some x := by
  obtain ⟨d, same, read⟩ := decimal?_positional (isNegative x) (Decimal.shortest m) idle
  unfold float?
  rw [text_toList finite, List.append_assoc, read]
  exact finite?_shortest finite same

/-! ## Doubles that are not finite -/

theorem bits_of_magnitude?_eq_none {x : Float} (infinite : magnitude? x = none) :
    x.toBits.toNat / 2 ^ 52 % 2 ^ 11 = 2047 := by
  have size : x.toBits.toNat < 2 ^ 64 := x.toBits.toNat_lt
  have large : 2047 * 2 ^ 52 ≤ x.toBits.toNat % 2 ^ 63 := by
    simp only [magnitude?, Magnitude.ofBits?] at infinite
    split at infinite
    · rename_i large
      exact large
    · split at infinite <;> cases infinite
  omega

/-- Bits of which the exponent is full and the rest is not empty are no number, and there is only
one such double. -/
theorem toBits_eq_nan {x : Float} (full : x.toBits.toNat / 2 ^ 52 % 2 ^ 11 = 2047)
    (some : x.toBits.toNat % 2 ^ 52 ≠ 0) : x = 0.0 / 0.0 := by
  have exponent : @Float.Model.UnpackedFloat.unpackExponent Float.Model.Format.binary64
      x.toBits.toBitVec = -1#11 := by
    rw [Float.Model.UnpackedFloat.unpackExponent_def]
    apply BitVec.eq_of_toNat_eq
    rw [BitVec.extractLsb'_toNat, Nat.shiftRight_eq_div_pow]
    exact full
  have mantissa : @Float.Model.UnpackedFloat.unpackMantissa Float.Model.Format.binary64
      x.toBits.toBitVec ≠ 0#52 := by
    rw [Float.Model.UnpackedFloat.unpackMantissa_def]
    intro zero
    have := congrArg BitVec.toNat zero
    rw [BitVec.extractLsb'_toNat, Nat.shiftRight_eq_div_pow] at this
    exact some (by simpa using this)
  have valid := x.toModel.valid.eq_packedNaN exponent mantissa
  rw [← Float.toBits_inj, ← UInt64.toBitVec_inj]
  exact valid

theorem eq_of_magnitude?_eq_none {x : Float} (infinite : magnitude? x = none) :
    x = 0.0 / 0.0 ∨ x = 1.0 / 0.0 ∨ x = -1.0 / 0.0 := by
  have size : x.toBits.toNat < 2 ^ 64 := x.toBits.toNat_lt
  have full := bits_of_magnitude?_eq_none infinite
  by_cases zero : x.toBits.toNat % 2 ^ 52 = 0
  · have bits : x.toBits.toNat = 2047 * 2 ^ 52 ∨ x.toBits.toNat = 2 ^ 63 + 2047 * 2 ^ 52 := by omega
    right
    rw [← Float.toBits_inj, ← UInt64.toNat_inj, ← Float.toBits_inj, ← UInt64.toNat_inj]
    exact bits
  · exact .inl (toBits_eq_nan full zero)

end Sapling.Number
