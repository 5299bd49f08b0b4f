import Sapling.Proofs.JsonText
import Sapling.Proofs.NearestDoubles
import Sapling.Value

/-!
# Numbers in JSON

A finite double is written in JSON as a decimal that is rounded to it
(`Number.decimal?_numberJson`), be it a whole number, a decimal with a point or one with an
exponent.  So its text says which double it was, up to the sign of zero
(`Number.numberJson_reads`).  A double that is not finite is written as a text in quotes, and no
other one is.  The one exception is the bound above the words, which passes for a word and overflows
(`Number.numberJson_wordBound`).
-/

set_option autoImplicit false

namespace Sapling

theorem Text.json_injective {a b : String} (same : Text.json a = Text.json b) : a = b := by
  have first := JsonValue.Reader.stepAll_json .value [] none a
  have second := JsonValue.Reader.stepAll_json .value [] none b
  rw [same, second] at first
  simpa [JsonValue.Reader.takeText, JsonValue.Reader.takeValue] using first.symm

namespace Number

/-! ## Exponents -/

theorem exponentPart?_spelled (e : Int) :
    exponentPart? ('e' :: (if e < 0 then '-' else '+') :: Nat.toDigits 10 e.natAbs) = some e := by
  have digits : digitsIn? 10 (Nat.toDigits 10 e.natAbs) = some e.natAbs := by
    rw [digitsIn?_of_isDigit isDigit_toDigits, Nat.ofDigitChars_toDigits (by decide) (by decide)]
  have filled : (Nat.toDigits 10 e.natAbs).isEmpty = false :=
    List.isEmpty_eq_false_iff.mpr Nat.toDigits_ne_nil
  by_cases negative : e < 0
  · simp only [exponentPart?, if_pos negative, signed, filled, digits]
    simp [abs_of_neg negative]
  · simp only [exponentPart?, if_neg negative, signed, filled, digits]
    simp [abs_of_nonneg (Int.not_lt.mp negative)]

theorem decimal?_exponent (negative : Bool) {whole places fraction tail : List Char} {e : Int}
    (filled : whole ≠ []) (all : ∀ c ∈ whole, c.isDigit = true)
    (more : ∀ c ∈ places, c.isDigit = true)
    (spelled : fraction = '.' :: places ∨ places = [] ∧ fraction = [])
    (exponent : exponentPart? ('e' :: tail) = some e) :
    decimal? (sign negative ++ (whole ++ (fraction ++ 'e' :: tail)))
      = some (negative, ⟨Nat.ofDigitChars 10 (whole ++ places) 0, e - places.length⟩) := by
  have value := digitsIn?_of_isDigit (List.forall_mem_append.mpr ⟨all, more⟩)
  have taken : (whole ++ (fraction ++ 'e' :: tail)).takeWhile Char.isDigit = whole := by
    apply takeWhile_digits all
    rcases spelled with rfl | ⟨-, rfl⟩ <;> rfl
  obtain ⟨c, rest, rfl⟩ := List.exists_cons_of_ne_nil filled
  have split := signed_sign negative (rest ++ (fraction ++ 'e' :: tail)) (all c List.mem_cons_self)
  rw [← List.cons_append] at split
  unfold decimal?
  simp only [split, taken, List.drop_left]
  rcases spelled with rfl | ⟨rfl, rfl⟩
  · have behind : (places ++ 'e' :: tail).takeWhile Char.isDigit = places :=
      takeWhile_digits more rfl
    have left : (places ++ 'e' :: tail).dropWhile Char.isDigit = 'e' :: tail := by
      rw [List.dropWhile_append_of_pos more]
      rfl
    simp only [List.cons_append, behind, left] at value ⊢
    simp [exponent, value]
  · simp only [List.nil_append, List.append_nil] at value ⊢
    simp [exponent, value]

theorem scientific_toList {d : Decimal} {first : Char} {rest : List Char} {e : Int}
    (digits : Nat.toDigits 10 d.digits = first :: rest) (exponent : d.exponent + rest.length = e) :
    d.scientific.toList = [first] ++ ((if rest = [] then [] else '.' :: rest) ++
      'e' :: (if e < 0 then '-' else '+') :: Nat.toDigits 10 e.natAbs) := by
  have length : (first :: rest).length - 1 = rest.length := rfl
  simp only [Decimal.scientific, Decimal.digitText, digits, length, exponent]
  by_cases negative : e < 0
  · cases rest <;> simp [negative]
  · cases rest <;> simp [negative]

theorem decimal?_scientific (negative : Bool) (d : Decimal) :
    ∃ e : Decimal, e.value = d.value ∧
      decimal? (sign negative ++ d.scientific.toList) = some (negative, e) := by
  have filled : Nat.toDigits 10 d.digits ≠ [] := Nat.toDigits_ne_nil
  obtain ⟨first, rest, digits⟩ := List.exists_cons_of_ne_nil filled
  have all : ∀ c ∈ first :: rest, c.isDigit = true := digits ▸ isDigit_toDigits
  obtain ⟨isDigit, others⟩ := List.forall_mem_cons.mp all
  have spelled : (if rest = [] then [] else '.' :: rest) = '.' :: rest ∨
      rest = [] ∧ (if rest = [] then [] else '.' :: rest) = [] := by
    by_cases none : rest = []
    · exact .inr ⟨none, if_pos none⟩
    · exact .inl (if_neg none)
  have read := decimal?_exponent negative (List.cons_ne_nil first [])
    (List.forall_mem_singleton.mpr isDigit) others spelled
    (exponentPart?_spelled (d.exponent + rest.length))
  rw [← scientific_toList digits rfl] at read
  refine ⟨_, ?_, read⟩
  have value : Nat.ofDigitChars 10 ([first] ++ rest) 0 = d.digits := by
    rw [List.singleton_append, ← digits]
    exact Nat.ofDigitChars_toDigits (by decide) (by decide)
  rw [Decimal.value, value, add_sub_cancel_right]
  rfl

/-! ## Whole numbers -/

theorem value_eq_natCast_iff {m : Magnitude} {k : Nat} :
    m.value = k ↔ m.units = k * Magnitude.one := by
  rw [Magnitude.value, div_eq_iff (Nat.cast_pos.mpr Magnitude.one_pos).ne']
  exact_mod_cast Iff.rfl

theorem signed_eq_intCast_iff {m : Magnitude} {negative : Bool} {n : Int} :
    m.signed negative = n ↔
      m.units = n.natAbs * Magnitude.one ∧
        n = if negative then -(n.natAbs : Int) else n.natAbs := by
  have nonneg := m.value_nonneg
  rw [← value_eq_natCast_iff, Magnitude.signed]
  cases negative with
  | false =>
    simp only [Bool.false_eq_true, if_false]
    constructor
    · intro same
      have size : 0 ≤ n := by exact_mod_cast same ▸ nonneg
      have natural : n = n.natAbs := by omega
      refine ⟨?_, natural⟩
      rw [same, ← Int.cast_natCast, ← natural]
    · rintro ⟨same, natural⟩
      rw [same, ← Int.cast_natCast, ← natural]
  | true =>
    simp only [if_true]
    constructor
    · intro same
      have size : n ≤ 0 := by exact_mod_cast same ▸ neg_nonpos.mpr nonneg
      have natural : n = -(n.natAbs : Int) := by omega
      refine ⟨?_, natural⟩
      rw [← neg_inj, same]
      exact_mod_cast natural
    · rintro ⟨same, natural⟩
      rw [same]
      exact_mod_cast natural.symm

theorem toInt?_eq_some_iff {x : Float} {n : Int} :
    toInt? x = some n ↔ rational? x = some (n : ℚ) := by
  unfold toInt? rational?
  cases magnitude? x with
  | none => simp
  | some m =>
    rw [Option.map_some, Option.some.injEq, signed_eq_intCast_iff]
    dsimp only
    constructor
    · intro found
      split at found
      · rename_i whole
        have multiple : m.units / Magnitude.one * Magnitude.one = m.units :=
          Nat.div_mul_cancel (Nat.dvd_of_mod_eq_zero whole)
        generalize m.units / Magnitude.one = count at found multiple
        rw [Option.some.injEq] at found
        have size : n.natAbs = count := by split_ifs at found <;> omega
        rw [size]
        exact ⟨multiple.symm, found.symm⟩
      · cases found
    · rintro ⟨multiple, natural⟩
      rw [multiple, Nat.mul_mod_left, if_pos rfl, Nat.mul_div_cancel _ Magnitude.one_pos,
        ← natural]

/-! ## Texts of finite doubles -/

/-- The bound above the words: the one double that passes for a word and is none. -/
def IsWordBound (x : Float) : Prop := rational? x = some ((2 ^ 63 : Int) : ℚ)

theorem toWord_eq {n : Int} (low : -2 ^ 63 ≤ n) (high : n < 2 ^ 63) : toWord n = n := by
  have half : (wordHalf : Int) = 2 ^ 63 := rfl
  have fits : fitsWord n = true := by
    rw [fitsWord, Bool.and_eq_true, decide_eq_true_eq, decide_eq_true_eq]
    exact ⟨by omega, by omega⟩
  rw [toWord, if_pos fits]

theorem numberJson_word {x : Float} {n : Int} (whole : rational? x = some (n : ℚ))
    (low : -2 ^ 63 ≤ n) (high : n ≤ 2 ^ 63) : Value.numberJson x = toString (toWord n) := by
  have half : (wordHalf : Int) = 2 ^ 63 := rfl
  simp only [Value.numberJson, toInt?_eq_some_iff.mpr whole]
  rw [if_pos ⟨by omega, by omega⟩]

theorem numberJson_whole {x : Float} {n : Int} (whole : rational? x = some (n : ℚ))
    (low : -2 ^ 63 ≤ n) (high : n < 2 ^ 63) : Value.numberJson x = toString n := by
  rw [numberJson_word whole low (by omega), toWord_eq low high]

/-- At the bound the conversion overflows, to the text of another number. -/
theorem numberJson_wordBound {x : Float} (bound : IsWordBound x) :
    Value.numberJson x = toString (-2 ^ 63 : Int) :=
  numberJson_word bound (by norm_num) (by norm_num)

/-- A finite double is written as a whole number if it is a word, and otherwise as a decimal. -/
theorem numberJson_cases {x : Float} {m : Magnitude} (finite : magnitude? x = some m)
    (proper : ¬ IsWordBound x) :
    (∃ n : Int, rational? x = some (n : ℚ) ∧ Value.numberJson x = toString n) ∨
      Value.numberJson x = jsonText x := by
  unfold Value.numberJson
  cases found : toInt? x with
  | none => exact .inr (by simp only [finite])
  | some n =>
    have half : (wordHalf : Int) = 2 ^ 63 := rfl
    have whole := toInt?_eq_some_iff.mp found
    dsimp only
    split
    · rename_i passes
      have below : n ≠ 2 ^ 63 := by
        rintro rfl
        exact proper whole
      exact .inl ⟨n, whole, by rw [toWord_eq (by omega) (by omega)]⟩
    · exact .inr rfl

theorem decimal?_toString (n : Int) :
    decimal? (toString n).toList = some (decide (n < 0), ⟨n.natAbs, 0⟩) := by
  have spelled : (toString n).toList =
      sign (decide (n < 0)) ++ (Nat.toDigits 10 n.natAbs ++ []) := by
    rw [List.append_nil]
    exact toList_toString n
  have read : decimal? (sign (decide (n < 0)) ++ (Nat.toDigits 10 n.natAbs ++ [])) = _ :=
    decimal?_whole Nat.toDigits_ne_nil isDigit_toDigits (.inl rfl)
  rw [spelled, read, Nat.ofDigitChars_toDigits (by decide) (by decide)]

theorem decimal?_jsonText {x : Float} {m : Magnitude} (finite : magnitude? x = some m) :
    ∃ d : Decimal, d.value = (Decimal.shortest m).value ∧
      decimal? (jsonText x).toList = some (isNegative x, d) := by
  have spelled (body : String) : ((if isNegative x then "-" else "") ++ body).toList =
      sign (isNegative x) ++ body.toList := by
    unfold sign
    cases isNegative x <;> simp
  unfold jsonText
  simp only [finite, spelled]
  split
  · exact decimal?_scientific (isNegative x) (Decimal.shortest m)
  · obtain ⟨d, same, read⟩ := decimal?_positional (isNegative x) (Decimal.shortest m) (.inl rfl)
    rw [List.append_nil] at read
    exact ⟨d, same, read⟩

theorem decimal?_whole_contained {m : Magnitude} (canonical : m.Canonical)
    (positive : 0 < m.mantissa) {negative : Bool} {n : Int} (same : m.signed negative = n) :
    (Decimal.Interval.of m).Contains (Decimal.value ⟨n.natAbs, 0⟩) ∧
      decimal? (toString n).toList = some (negative, ⟨n.natAbs, 0⟩) := by
  obtain ⟨units, signed⟩ := signed_eq_intCast_iff.mp same
  have nonzero : n.natAbs ≠ 0 := by
    intro zero
    rw [zero, Nat.zero_mul, Magnitude.units_eq] at units
    exact (Nat.mul_pos positive (Nat.two_pow_pos _)).ne' units
  have value : Decimal.value ⟨n.natAbs, 0⟩ = m.value := by
    rw [value_eq_natCast_iff.mpr units, Decimal.value, zpow_zero, mul_one]
  have sign : decide (n < 0) = negative := by
    cases negative with
    | false =>
      rw [if_neg Bool.false_ne_true] at signed
      exact decide_eq_false (by omega)
    | true =>
      rw [if_pos rfl] at signed
      exact decide_eq_true (by omega)
  rw [value, decimal?_toString, sign]
  exact ⟨Decimal.Interval.contains_value canonical positive, rfl⟩

theorem decimal?_numberJson {x : Float} {m : Magnitude} (finite : magnitude? x = some m)
    (proper : ¬ IsWordBound x) (positive : 0 < m.mantissa) :
    ∃ d : Decimal, (Decimal.Interval.of m).Contains d.value ∧
      decimal? (Value.numberJson x).toList = some (isNegative x, d) := by
  obtain ⟨canonical, -⟩ := canonical_of_magnitude? finite
  rcases numberJson_cases finite proper with ⟨n, whole, text⟩ | text
  · have same : m.signed (isNegative x) = n := by simpa [rational?, finite] using whole
    rw [text]
    exact ⟨_, decimal?_whole_contained canonical positive same⟩
  · obtain ⟨d, same, read⟩ := decimal?_jsonText finite
    rw [text]
    exact ⟨d, same ▸ Decimal.shortest_contained canonical positive, read⟩

theorem float?_numberJson {x : Float} {m : Magnitude} (finite : magnitude? x = some m)
    (proper : ¬ IsWordBound x) (positive : 0 < m.mantissa) :
    float? (Value.numberJson x).toList = some x := by
  obtain ⟨canonical, bits⟩ := canonical_of_magnitude? finite
  obtain ⟨d, inside, read⟩ := decimal?_numberJson finite proper positive
  have rounded := Decimal.toBits_of_contained canonical positive inside
  rw [float?, read]
  show finite? (isNegative x) d = some x
  unfold finite?
  dsimp only
  rw [rounded, if_pos canonical.toBits_lt, bits, ofSignAndBits_self]

/-! ## Zeros -/

theorem eq_zero_of_mantissa {x : Float} {m : Magnitude} (finite : magnitude? x = some m)
    (zero : m.mantissa = 0) : x = 0.0 ∨ x = -0.0 := by
  obtain ⟨canonical, bits⟩ := canonical_of_magnitude? finite
  have hiddenPos := Magnitude.hidden_pos
  have unshifted : m.shift = 0 := by
    by_contra shifted
    have := canonical.full (Nat.pos_of_ne_zero shifted)
    omega
  have none : x.toBits.toNat % signBit = 0 := by
    rw [← bits, Magnitude.toBits, unshifted, zero, Nat.zero_mul]
  rw [← ofSignAndBits_self x, none]
  cases isNegative x with
  | false => exact .inl (by rfl)
  | true => exact .inr (by rfl)

theorem rational?_zero {x : Float} {m : Magnitude} (finite : magnitude? x = some m)
    (zero : m.mantissa = 0) : rational? x = some ((0 : Int) : ℚ) := by
  have units : m.units = (0 : Int).natAbs * Magnitude.one := by
    rw [m.units_eq, zero, Nat.zero_mul, Int.natAbs_zero, Nat.zero_mul]
  have value : m.signed (isNegative x) = (0 : Int) :=
    signed_eq_intCast_iff.mpr ⟨units, by cases isNegative x <;> rfl⟩
  rw [rational?, finite, Option.map_some, value]

theorem numberJson_reads {x : Float} {m : Magnitude} (finite : magnitude? x = some m)
    (proper : ¬ IsWordBound x) :
    ∃ y, float? (Value.numberJson x).toList = some y ∧ (x = y ∨ y = 0.0 ∧ x = -0.0) := by
  rcases Nat.eq_zero_or_pos m.mantissa with zero | positive
  · refine ⟨0.0, ?_⟩
    have read : float? (toString (0 : Int)).toList = some 0.0 := rfl
    rw [numberJson_whole (rational?_zero finite zero) (by norm_num) (by norm_num)]
    refine ⟨read, ?_⟩
    exact (eq_zero_of_mantissa finite zero).imp_right fun negative => ⟨rfl, negative⟩
  · exact ⟨x, float?_numberJson finite proper positive, .inl rfl⟩

/-! ## Doubles that are not finite -/

theorem magnitude?_eq_none_iff {x : Float} :
    magnitude? x = none ↔ x.isNaN = true ∨ x.isInf = true := by
  constructor
  · intro infinite
    rcases eq_of_magnitude?_eq_none infinite with rfl | rfl | rfl <;> decide
  · intro special
    have full : @Float.Model.UnpackedFloat.unpackExponent Float.Model.Format.binary64
        x.toModel.toBits.toBitVec = -1#11 := by
      by_contra some
      have finite : x.isNaN = false ∧ x.isInf = false := by
        show x.toModel.unpack.isNaN = false ∧ x.toModel.unpack.isInf = false
        unfold Float.Model.unpack Float.Model.UnpackedFloat.unpack
        dsimp only
        rw [if_neg some]
        split_ifs <;> exact ⟨rfl, rfl⟩
      rw [finite.1, finite.2] at special
      simp at special
    rw [Float.Model.UnpackedFloat.unpackExponent_def] at full
    have exponent := congrArg BitVec.toNat full
    rw [BitVec.extractLsb'_toNat, Nat.shiftRight_eq_div_pow] at exponent
    have same : x.toBits.toNat / 2 ^ 52 % 2 ^ 11 = 2047 := exponent
    have large : Magnitude.infinityBits ≤ x.toBits.toNat % signBit := by
      show 2047 * 2 ^ 52 ≤ x.toBits.toNat % 2 ^ 63
      omega
    rw [magnitude?, Magnitude.ofBits?, if_pos large]

theorem isNaN_of_finite {x : Float} {m : Magnitude} (finite : magnitude? x = some m) :
    x.isNaN = false := by
  by_contra nan
  have infinite := magnitude?_eq_none_iff.mpr (.inl (Bool.eq_true_of_not_eq_false nan))
  rw [finite] at infinite
  cases infinite

theorem beq_self {x : Float} (number : x.isNaN = false) : (x == x) = true := by
  have unpacked : x.toModel.unpack.isNaN = false := number
  show (x.toModel.unpack.compare x.toModel.unpack == some .eq) = true
  generalize x.toModel.unpack = value at unpacked ⊢
  cases value with
  | infinity sign => cases sign <;> rfl
  | notANumber => cases unpacked
  | zero sign => rfl
  | finite sign mantissa exponent positive =>
    cases sign <;> simp [Float.Model.UnpackedFloat.compare]

theorem decimal?_quoted (text : String) : decimal? (Text.json text).toList = none := by
  rw [JsonValue.Reader.toList_json]
  rfl

theorem numberJson_infinite {x : Float} (infinite : magnitude? x = none) :
    Value.numberJson x = Text.json (text x) := by
  have notWhole : toInt? x = none := by rw [toInt?, infinite]
  simp only [Value.numberJson, notWhole, infinite]

theorem decimal?_numberJson_ne_none {x : Float} {m : Magnitude} (finite : magnitude? x = some m) :
    decimal? (Value.numberJson x).toList ≠ none := by
  by_cases bound : IsWordBound x
  · rw [numberJson_wordBound bound, decimal?_toString]
    exact Option.some_ne_none _
  · obtain ⟨y, read, -⟩ := numberJson_reads finite bound
    intro unread
    rw [float?, unread] at read
    cases read

theorem eq_of_numberJson_eq {x y : Float} (proper : ¬ IsWordBound x) (proper' : ¬ IsWordBound y)
    (same : Value.numberJson x = Value.numberJson y) :
    (x == y) = true ∨ x.isNaN = true ∧ y.isNaN = true := by
  cases finite : magnitude? x with
  | none =>
    cases finite' : magnitude? y with
    | none =>
      rw [numberJson_infinite finite, numberJson_infinite finite'] at same
      replace same := Text.json_injective same
      rcases eq_of_magnitude?_eq_none finite with rfl | rfl | rfl <;>
        rcases eq_of_magnitude?_eq_none finite' with rfl | rfl | rfl <;>
        first
          | exact .inr (by decide)
          | exact .inl (by decide)
          | exact absurd same (by decide)
    | some n =>
      rw [numberJson_infinite finite] at same
      exact absurd (same ▸ decimal?_quoted _) (decimal?_numberJson_ne_none finite')
  | some m =>
    cases finite' : magnitude? y with
    | none =>
      rw [numberJson_infinite finite'] at same
      exact absurd (same ▸ decimal?_quoted _) (decimal?_numberJson_ne_none finite)
    | some n =>
      obtain ⟨a, read, isA⟩ := numberJson_reads finite proper
      obtain ⟨b, read', isB⟩ := numberJson_reads finite' proper'
      rw [same, read', Option.some.injEq] at read
      subst read
      have number : x.isNaN = false := isNaN_of_finite finite
      rcases isA with rfl | ⟨rfl, rfl⟩ <;> rcases isB with rfl | ⟨zero, rfl⟩
      · exact .inl (beq_self number)
      · subst zero
        exact .inl (by decide)
      · exact .inl (by decide)
      · exact .inl (by decide)

end Number

open Number in
/-- The JSON of a number loses nothing, but for the one double at which the conversion to a word
overflows.  It is a text in quotes for what is infinite or no number, the number itself in digits if
it is a word, and otherwise a decimal that is rounded to the double.  So doubles with the same JSON
are equal, or neither is a number. -/
theorem Value.number_json_lossless :
    (∀ v : Float, ¬ IsWordBound v →
      ((∃ text, (Value.number v).json = Text.json text) ↔ v.isNaN = true ∨ v.isInf = true) ∧
      (∀ n : Int, rational? v = some (n : ℚ) → -2 ^ 63 ≤ n → n < 2 ^ 63 →
        toWord n = n ∧ (Value.number v).json = toString n) ∧
      (v.isNaN = false → v.isInf = false →
        (¬ ∃ n : Int, rational? v = some (n : ℚ) ∧ -2 ^ 63 ≤ n ∧ n < 2 ^ 63) →
        ∃ negative d, decimal? (Value.number v).json.toList = some (negative, d) ∧
          RoundsTo (if negative then -d.value else d.value) v ∧
          float? (Value.number v).json.toList = some v)) ∧
    ∀ v w : Float, ¬ IsWordBound v → ¬ IsWordBound w →
      (Value.number v).json = (Value.number w).json →
        (v == w) = true ∨ v.isNaN = true ∧ w.isNaN = true := by
  refine ⟨fun v proper => ⟨?_, fun n whole low high =>
    ⟨toWord_eq low high, numberJson_whole whole low high⟩, fun number bounded other => ?_⟩,
    fun v w => eq_of_numberJson_eq⟩
  · constructor
    · rintro ⟨text, quoted⟩
      rw [← magnitude?_eq_none_iff]
      cases finite : magnitude? v with
      | none => rfl
      | some m =>
        have read := decimal?_numberJson_ne_none finite
        have quoted : numberJson v = Text.json text := quoted
        rw [quoted] at read
        exact absurd (decimal?_quoted text) read
    · intro special
      exact ⟨_, numberJson_infinite (magnitude?_eq_none_iff.mpr special)⟩
  · cases finite : magnitude? v with
    | none =>
      have special := magnitude?_eq_none_iff.mp finite
      rw [number, bounded] at special
      simp at special
    | some m =>
      have positive : 0 < m.mantissa := by
        by_contra none
        have zero := rational?_zero finite (Nat.eq_zero_of_not_pos none)
        exact other ⟨0, zero, by norm_num, by norm_num⟩
      obtain ⟨d, inside, read⟩ := decimal?_numberJson finite proper positive
      exact ⟨_, d, read, roundsTo_of_contains finite positive inside,
        float?_numberJson finite proper positive⟩

open Number in
/-- A small double, which is written with an exponent, and the bound above the words, which is
written like the least of them. -/
theorem Value.number_json_lossless_tiny :
    let v : Float := 1e-7
    let bound : Float := 9223372036854775808
    let least : Float := -9223372036854775808
    ¬ IsWordBound v ∧ v.isNaN = false ∧ v.isInf = false ∧
      (∀ n : Int, rational? v ≠ some (n : ℚ)) ∧ float? (Value.number v).json.toList = some v ∧
    IsWordBound bound ∧ (bound == least) = false ∧
      (Value.number bound).json = (Value.number least).json := by
  intro v bound least
  obtain ⟨notWhole, number, bounded⟩ :
      toInt? v = none ∧ v.isNaN = false ∧ v.isInf = false := by decide +kernel
  have notInt (n : Int) : rational? v ≠ some (n : ℚ) := by
    intro whole
    rw [← toInt?_eq_some_iff, notWhole] at whole
    cases whole
  obtain ⟨top, bottom, differ⟩ : toInt? bound = some (2 ^ 63) ∧ toInt? least = some (-2 ^ 63) ∧
      (bound == least) = false := by decide +kernel
  have isBound : IsWordBound bound := toInt?_eq_some_iff.mp top
  have least : (Value.number least).json = toString (-2 ^ 63 : Int) :=
    numberJson_whole (toInt?_eq_some_iff.mp bottom) (by norm_num) (by norm_num)
  obtain ⟨-, -, lossless⟩ := Value.number_json_lossless.1 v (notInt _)
  obtain ⟨_, _, _, _, read⟩ := lossless number bounded fun ⟨n, whole, _⟩ => notInt n whole
  exact ⟨notInt _, number, bounded, notInt, read, isBound, differ,
    (numberJson_wordBound isBound).trans least.symm⟩

end Sapling
