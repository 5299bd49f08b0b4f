import Sapling.Proofs.WholeNumbers
import Sapling.Text.Json
import Sapling.Text.Quoted

/-!
# Reading JSON that was written

Texts, numbers and objects that are written in JSON (`JsonValue.Spelled`) are read back as they were
(`JsonValue.Spelled.read?`), and no control character stands among their characters
(`JsonValue.Spelled.plain`), so that each fits on a line.

The reading lemmas speak of the state that the reader is left in, for all collections that may be
open around the value.  A number is complete only with the character behind it; so a value is always
read together with the comma or the brace that follows it.
-/

set_option autoImplicit false

namespace Sapling

open Number (digitIn?)

namespace JsonValue

/-- The text is the value in JSON, with collections nested at most so deep. -/
inductive Spelled : (depth : Nat) → String → JsonValue → Prop
  | text (depth : Nat) (text : String) : Spelled depth (Text.json text) (.text text)
  | number (depth : Nat) {text : String} (chars : ∀ c ∈ text.toList, Reader.isNumberChar c = true)
      (fits : Reader.numberFits text.toList = true) : Spelled depth text (.number text)
  /-- An entry is a key with the text and the value behind it. -/
  | object {depth : Nat} (entries : List (String × String × JsonValue))
      (each : ∀ entry ∈ entries, Spelled depth entry.2.1 entry.2.2) :
      Spelled (depth + 1) (Text.jsonObject (entries.map fun entry => (entry.1, entry.2.1)))
        (.object (entries.map fun entry => (entry.1, entry.2.2)))

namespace Reader

def stepAll (reader : Reader) (chars : List Char) : Option Reader := chars.foldlM step reader

@[simp] theorem stepAll_nil (reader : Reader) : reader.stepAll [] = some reader := rfl

@[simp] theorem stepAll_cons (reader : Reader) (c : Char) (rest : List Char) :
    reader.stepAll (c :: rest) = (reader.step c).bind fun next => next.stepAll rest := by
  simp [stepAll, List.foldlM_cons]

theorem stepAll_append (reader : Reader) (front back : List Char) :
    reader.stepAll (front ++ back) = (reader.stepAll front).bind fun next => next.stepAll back := by
  simp [stepAll, List.foldlM_append]

/-! ## Texts -/

section Texts
variable (expecting : Expecting) (opened : List Opened) (result : Option JsonValue)

theorem step_codeDigit {c : Char} {digit : Nat} (isDigit : digitIn? 16 c = some digit)
    (chars : List Char) (high : Option Nat) {digits : Nat} (more : digits ≠ 3) (value : Nat) :
    step ⟨.inCode chars high digits value, expecting, opened, result⟩ c =
      some ⟨.inCode chars high (digits + 1) (value * 16 + digit), expecting, opened, result⟩ := by
  rw [step, isDigit]
  simp only [Option.map_some, if_neg more]

theorem step_lastDigit {c : Char} {digit : Nat} (isDigit : digitIn? 16 c = some digit)
    (chars : List Char) (high : Option Nat) (value : Nat) :
    step ⟨.inCode chars high 3 value, expecting, opened, result⟩ c =
      some ⟨takeCode chars high (value * 16 + digit), expecting, opened, result⟩ := by
  rw [step, isDigit]
  rfl

theorem takeCode_whole {code : Nat} (whole : code < 0xD800) (chars : List Char) :
    takeCode chars none code = .inText (Char.ofNat code :: chars) none := by
  rw [takeCode, if_neg (by omega), if_neg (by omega)]

/-- Four digits behind a backslash and a `u` give a character, unless they are half of a pair. -/
theorem stepAll_code {digits : List Char} {a b c d : Nat}
    (values : digits.map (digitIn? 16) = [some a, some b, some c, some d])
    (whole : ((a * 16 + b) * 16 + c) * 16 + d < 0xD800) (chars : List Char) :
    stepAll ⟨.inText chars none, expecting, opened, result⟩ ('\\' :: 'u' :: digits) =
      some ⟨.inText (Char.ofNat (((a * 16 + b) * 16 + c) * 16 + d) :: chars) none, expecting,
        opened, result⟩ := by
  obtain ⟨first, digits, rfl, isFirst, values⟩ := List.map_eq_cons_iff.mp values
  obtain ⟨second, digits, rfl, isSecond, values⟩ := List.map_eq_cons_iff.mp values
  obtain ⟨third, digits, rfl, isThird, values⟩ := List.map_eq_cons_iff.mp values
  obtain ⟨fourth, digits, rfl, isFourth, values⟩ := List.map_eq_cons_iff.mp values
  obtain rfl := List.map_eq_nil_iff.mp values
  have backslash : step ⟨.inText chars none, expecting, opened, result⟩ '\\' =
      some ⟨.afterBackslash chars none, expecting, opened, result⟩ := rfl
  have mark : step ⟨.afterBackslash chars none, expecting, opened, result⟩ 'u' =
      some ⟨.inCode chars none 0 0, expecting, opened, result⟩ := rfl
  rw [stepAll_cons, backslash, Option.bind_some, stepAll_cons, mark, Option.bind_some,
    stepAll_cons, step_codeDigit _ _ _ isFirst _ _ (by decide), Option.bind_some,
    stepAll_cons, step_codeDigit _ _ _ isSecond _ _ (by decide), Option.bind_some,
    stepAll_cons, step_codeDigit _ _ _ isThird _ _ (by decide), Option.bind_some,
    stepAll_cons, step_lastDigit _ _ _ isFourth, Option.bind_some, stepAll_nil,
    Nat.zero_mul, Nat.zero_add, takeCode_whole whole]

theorem hex_values_of_control : ∀ n < 0x20,
    (Text.hex 4 n).toList.map (digitIn? 16) = [some 0, some 0, some (n / 16), some (n % 16)] := by
  decide

theorem stepAll_jsonChar (c : Char) (chars : List Char) :
    stepAll ⟨.inText chars none, expecting, opened, result⟩ (Text.jsonChar c).toList =
      some ⟨.inText (c :: chars) none, expecting, opened, result⟩ := by
  have code {a b x y : Nat} (number : ((a * 16 + b) * 16 + x) * 16 + y = c.toNat)
      (whole : c.toNat < 0xD800)
      (values : (Text.hex 4 c.toNat).toList.map (digitIn? 16) = [some a, some b, some x, some y]) :
      stepAll ⟨.inText chars none, expecting, opened, result⟩
          ("\\u" ++ Text.hex 4 c.toNat).toList =
        some ⟨.inText (c :: chars) none, expecting, opened, result⟩ := by
    have read := stepAll_code expecting opened result values (number ▸ whole) chars
    rw [number, Char.ofNat_toNat] at read
    rw [String.toList_append]
    exact read
  unfold Text.jsonChar
  split
  case h_8 quote backslash _ _ _ _ _ =>
    split
    · rename_i escaped
      simp only [Bool.or_eq_true, decide_eq_true_eq, beq_iff_eq] at escaped
      rcases escaped with ((((control | rfl) | rfl) | rfl) | rfl) | rfl
      · exact code (a := 0) (b := 0) (x := c.toNat / 16) (y := c.toNat % 16) (by omega) (by omega)
          (hex_values_of_control _ control)
      · exact code (a := 0) (b := 0) (x := 3) (y := 12) (by decide) (by decide) (by decide)
      · exact code (a := 0) (b := 0) (x := 3) (y := 14) (by decide) (by decide) (by decide)
      · exact code (a := 0) (b := 0) (x := 2) (y := 6) (by decide) (by decide) (by decide)
      · exact code (a := 2) (b := 0) (x := 2) (y := 8) (by decide) (by decide) (by decide)
      · exact code (a := 2) (b := 0) (x := 2) (y := 9) (by decide) (by decide) (by decide)
    · rename_i plain
      simp only [Bool.or_eq_true, decide_eq_true_eq, not_or] at plain
      have spelled : c.toString.toList = [c] := String.toList_singleton c
      rw [spelled, stepAll_cons, step]
      simp only [settle, if_neg quote, if_neg backslash, plain]
      rfl
  all_goals rfl

theorem toList_json (text : String) :
    (Text.json text).toList =
      '"' :: (text.toList.flatMap (fun c => (Text.jsonChar c).toList) ++ ['"']) := by
  have folded (chars : List Char) : ∀ done : String,
      (chars.foldl (fun done c => done ++ Text.jsonChar c) done).toList =
        done.toList ++ chars.flatMap (fun c => (Text.jsonChar c).toList) := by
    induction chars with
    | nil => simp
    | cons c rest ih =>
      intro done
      simp [ih]
  rw [Text.json, String.foldl_eq_foldl_toList]
  simp [folded]

theorem stepAll_jsonChars (text : List Char) : ∀ chars : List Char,
    stepAll ⟨.inText chars none, expecting, opened, result⟩
        (text.flatMap fun c => (Text.jsonChar c).toList) =
      some ⟨.inText (text.reverse ++ chars) none, expecting, opened, result⟩ := by
  induction text with
  | nil => simp
  | cons c rest ih =>
    intro chars
    rw [List.flatMap_cons, stepAll_append, stepAll_jsonChar]
    simp [ih]

theorem stepAll_json (text : String) :
    stepAll ⟨.between, expecting, opened, result⟩ (Text.json text).toList =
      takeText ⟨.between, expecting, opened, result⟩ text := by
  have start : step ⟨.between, expecting, opened, result⟩ '"' =
      some ⟨.inText [] none, expecting, opened, result⟩ := rfl
  rw [toList_json, stepAll_cons, start, Option.bind_some, stepAll_append, stepAll_jsonChars,
    Option.bind_some, stepAll_cons, List.append_nil]
  simp only [step, settle, if_true, Option.isSome_none, Bool.false_eq_true, if_false,
    List.reverse_reverse, String.ofList_toList, stepAll_nil, Option.bind_fun_some]
  rfl

end Texts
/-! ## Numbers -/

theorem numberFits_head {c : Char} {rest : List Char} (fits : numberFits (c :: rest) = true) :
    c = '-' ∨ c.isDigit = true := by
  by_cases minus : c = '-'
  · exact .inl minus
  · refine .inr ?_
    by_contra other
    rw [numberFits] at fits
    simp [other] at fits
    exact fun _ same => minus (List.cons.inj same).1

theorem step_numberHead {c : Char} (head : c = '-' ∨ c.isDigit = true) (expecting : Expecting)
    (opened : List Opened) (result : Option JsonValue) :
    step ⟨.between, expecting, opened, result⟩ c =
      some ⟨.inNumber [c], expecting, opened, result⟩ := by
  rcases head with rfl | digit
  · rfl
  · have other (d : Char) (noDigit : d.isDigit = false) : c ≠ d := by
      rintro rfl
      rw [digit] at noDigit
      cases noDigit
    simp only [step, stepBetween]
    rw [if_neg]
    · split
      all_goals first
        | exact absurd rfl (other _ (by decide))
        | skip
      rw [if_pos (.inr digit)]
    · rintro (same | same | same | same)
      all_goals exact other _ (by decide) same

theorem stepAll_numberChars (expecting : Expecting) (opened : List Opened)
    (result : Option JsonValue) {more : List Char} (chars : ∀ c ∈ more, isNumberChar c = true) :
    ∀ spelling : List Char,
      stepAll ⟨.inNumber spelling, expecting, opened, result⟩ more =
        some ⟨.inNumber (more.reverse ++ spelling), expecting, opened, result⟩ := by
  induction more with
  | nil => simp
  | cons c rest ih =>
    intro spelling
    obtain ⟨first, others⟩ := List.forall_mem_cons.mp chars
    simp [step, first, ih others]

theorem stepAll_number {text : List Char} (chars : ∀ c ∈ text, isNumberChar c = true)
    (fits : numberFits text = true) (opened : List Opened) {c : Char}
    (ends : isNumberChar c = false) :
    stepAll ⟨.between, .value, opened, none⟩ (text ++ [c]) =
      (takeValue ⟨.between, .value, opened, none⟩ (.number (String.ofList text))).bind
        fun next => next.stepBetween c := by
  cases text with
  | nil => cases fits
  | cons first rest =>
    have others := (List.forall_mem_cons.mp chars).2
    rw [List.cons_append, stepAll_cons, step_numberHead (numberFits_head fits), Option.bind_some,
      stepAll_append, stepAll_numberChars _ _ _ others, Option.bind_some, stepAll_cons, step]
    simp only [ends, Bool.false_eq_true, if_false, endToken, List.reverse_append,
      List.reverse_reverse, List.reverse_singleton, List.singleton_append, fits, if_true]
    simp only [stepAll_nil, Option.bind_fun_some]
    rfl

/-! ## Objects -/

/-- In an object, behind a key, the text is read as the value when a comma or a brace follows. -/
def ReadBack (depth : Nat) (text : String) (value : JsonValue) : Prop :=
  ∀ (fields : List (String × JsonValue)) (key : String) (outer : List Opened) (c : Char),
    c = ',' ∨ c = '\x7d' → outer.length + depth < nestingLimit →
    stepAll ⟨.between, .value, .object fields key :: outer, none⟩ (text.toList ++ [c]) =
      stepBetween ⟨.between, .separator, .object ((key, value) :: fields) "" :: outer, none⟩ c

theorem readBack_of_taken {depth : Nat} {text : String} {value : JsonValue}
    (taken : ∀ (fields : List (String × JsonValue)) (key : String) (outer : List Opened),
      outer.length + depth < nestingLimit →
      stepAll ⟨.between, .value, .object fields key :: outer, none⟩ text.toList =
        takeValue ⟨.between, .value, .object fields key :: outer, none⟩ value) :
    ReadBack depth text value := by
  intro fields key outer c _ room
  rw [stepAll_append, taken fields key outer room]
  simp [takeValue, step]

theorem readBack_text (depth : Nat) (text : String) :
    ReadBack depth (Text.json text) (.text text) :=
  readBack_of_taken fun _ _ _ _ => stepAll_json _ _ _ text

theorem readBack_number (depth : Nat) {text : String}
    (chars : ∀ c ∈ text.toList, isNumberChar c = true) (fits : numberFits text.toList = true) :
    ReadBack depth text (.number text) := by
  intro fields key outer c delimiter _
  have ends : isNumberChar c = false := by rcases delimiter with rfl | rfl <;> decide
  rw [stepAll_number chars fits _ ends, String.ofList_toList]
  rfl

section Objects
variable {depth : Nat} {opened : List Opened}

theorem stepAll_entry {key text : String} {value : JsonValue} (read : ReadBack depth text value)
    (room : opened.length + depth < nestingLimit) {expecting : Expecting}
    (keyed : expecting = .firstKey ∨ expecting = .key) (done : List (String × JsonValue)) {c : Char}
    (delimiter : c = ',' ∨ c = '\x7d') :
    stepAll ⟨.between, expecting, .object done "" :: opened, none⟩
        ((Text.json key ++ ":" ++ text).toList ++ [c]) =
      stepBetween ⟨.between, .separator, .object ((key, value) :: done) "" :: opened, none⟩ c := by
  have took : takeText ⟨.between, expecting, .object done "" :: opened, none⟩ key =
      some ⟨.between, .colon, .object done key :: opened, none⟩ := by
    rcases keyed with rfl | rfl <;> rfl
  have colon : step ⟨.between, .colon, .object done key :: opened, none⟩ ':' =
      some ⟨.between, .value, .object done key :: opened, none⟩ := rfl
  have spelled : (":" : String).toList = [':'] := rfl
  simp only [String.toList_append, spelled, List.append_assoc, List.cons_append]
  rw [stepAll_append, stepAll_json, took, Option.bind_some, stepAll_cons, colon, Option.bind_some]
  exact read done key opened c delimiter room

theorem stepAll_entries (room : opened.length + depth < nestingLimit) :
    ∀ {entries : List (String × String × JsonValue)}, entries ≠ [] →
    (∀ entry ∈ entries, ReadBack depth entry.2.1 entry.2.2) →
    ∀ {expecting : Expecting} (done : List (String × JsonValue)),
    expecting = .firstKey ∨ expecting = .key →
    stepAll ⟨.between, expecting, .object done "" :: opened, none⟩
        ((Text.join "," (entries.map fun entry => Text.json entry.1 ++ ":" ++ entry.2.1)).toList
          ++ ['\x7d']) =
      takeValue ⟨.between, .value, opened, none⟩
        (.object (done.reverse ++ entries.map fun entry => (entry.1, entry.2.2)))
  | [], nonempty, _, _, _, _ => absurd rfl nonempty
  | [entry], _, each, expecting, done, keyed => by
    have read := each entry (List.mem_singleton.mpr rfl)
    rw [List.map_singleton, Text.join, String.intercalate_singleton,
      stepAll_entry read room keyed done (.inr rfl)]
    simp [stepBetween, closeObject, close]
  | entry :: next :: rest, _, each, expecting, done, keyed => by
    obtain ⟨read, others⟩ := List.forall_mem_cons.mp each
    have comma : stepBetween
        ⟨.between, .separator, .object ((entry.1, entry.2.2) :: done) "" :: opened, none⟩ ',' =
        some ⟨.between, .key, .object ((entry.1, entry.2.2) :: done) "" :: opened, none⟩ := rfl
    have split : (Text.join "," ((entry :: next :: rest).map
          fun entry => Text.json entry.1 ++ ":" ++ entry.2.1)).toList =
        ((Text.json entry.1 ++ ":" ++ entry.2.1).toList ++ [',']) ++ (Text.join ","
          ((next :: rest).map fun entry => Text.json entry.1 ++ ":" ++ entry.2.1)).toList := by
      rw [List.map_cons, List.map_cons, Text.join, String.intercalate_cons_cons,
        String.toList_append, String.toList_append]
      rfl
    rw [split, List.append_assoc, stepAll_append, stepAll_entry read room keyed done (.inl rfl),
      comma, Option.bind_some,
      stepAll_entries room (List.cons_ne_nil next rest) others _ (.inr rfl)]
    simp

theorem toList_jsonObject (fields : List (String × String)) :
    (Text.jsonObject fields).toList =
      '\x7b' ::
        ((Text.join "," (fields.map fun field => Text.json field.1 ++ ":" ++ field.2)).toList
          ++ ['\x7d']) := by
  rw [Text.jsonObject, String.toList_append, String.toList_append]
  rfl

theorem stepAll_jsonObject {entries : List (String × String × JsonValue)}
    (each : ∀ entry ∈ entries, ReadBack depth entry.2.1 entry.2.2)
    (room : opened.length + depth < nestingLimit) :
    stepAll ⟨.between, .value, opened, none⟩
        (Text.jsonObject (entries.map fun entry => (entry.1, entry.2.1))).toList =
      takeValue ⟨.between, .value, opened, none⟩
        (.object (entries.map fun entry => (entry.1, entry.2.2))) := by
  have start : step ⟨.between, .value, opened, none⟩ '\x7b' =
      some ⟨.between, .firstKey, .object [] "" :: opened, none⟩ := by
    have below : ¬ nestingLimit ≤ opened.length := by omega
    simp [step, stepBetween, openCollection, below]
  rw [toList_jsonObject, stepAll_cons, start, Option.bind_some, List.map_map]
  cases entries with
  | nil =>
    show (step _ _).bind _ = _
    simp [step, stepBetween, closeObject, close]
  | cons entry rest =>
    exact stepAll_entries room (List.cons_ne_nil entry rest) each [] (.inl rfl)

end Objects
end Reader

/-! ## Whole numbers -/

theorem head?_toDigits {n : Nat} (pos : 0 < n) : (Nat.toDigits 10 n).head? ≠ some '0' := by
  induction n using Nat.strong_induction_on with
  | _ n ih =>
    by_cases small : n < 10
    · rw [Nat.toDigits_of_lt_base small]
      have digits : ∀ d < 10, 0 < d → [d.digitChar].head? ≠ some '0' := by decide
      exact digits n small pos
    · rw [Nat.toDigits_of_base_le (by decide) (by omega),
        List.head?_append_of_ne_nil _ Nat.toDigits_ne_nil]
      exact ih (n / 10) (by omega) (by omega)

theorem isNumberChar_of_isDigit {c : Char} (digit : c.isDigit = true) :
    Reader.isNumberChar c = true := by
  simp [Reader.isNumberChar, digit]

theorem numberFits_whole (negative : Bool) (n : Nat) :
    Reader.numberFits (Number.sign negative ++ Nat.toDigits 10 n) = true := by
  have all := Number.isDigit_toDigits (n := n)
  have whole : (Nat.toDigits 10 n).takeWhile Char.isDigit = Nat.toDigits 10 n :=
    List.takeWhile_eq_self_iff.mpr all
  have rest : (Nat.toDigits 10 n).dropWhile Char.isDigit = [] :=
    List.dropWhile_eq_nil_iff.mpr all
  have lead : (Nat.toDigits 10 n).length = 1 ∨ (Nat.toDigits 10 n).head? ≠ some '0' := by
    rcases Nat.eq_zero_or_pos n with rfl | pos
    · exact .inl rfl
    · exact .inr (head?_toDigits pos)
  have fits : (!(Nat.toDigits 10 n).isEmpty && ((Nat.toDigits 10 n).length == 1 ||
      (Nat.toDigits 10 n).head? != some '0')) = true := by
    simpa [Nat.toDigits_ne_nil] using lead
  cases negative with
  | true =>
    show Reader.numberFits ('-' :: Nat.toDigits 10 n) = true
    rw [Reader.numberFits, whole, rest, fits]
    rfl
  | false =>
    show Reader.numberFits (Nat.toDigits 10 n) = true
    rw [Reader.numberFits, whole, rest, fits]
    · rfl
    · intro digits same
      exact absurd (all '-' (by simp [same])) (by decide)

theorem spelled_int (depth : Nat) (n : Int) :
    Spelled depth (toString n) (.number (toString n)) := by
  refine .number depth (fun c isIn => ?_) ?_
  · rw [Number.toList_toString, List.mem_append] at isIn
    rcases isIn with sign | digit
    · have minus : c = '-' := by
        unfold Number.sign at sign
        split at sign
        · exact List.mem_singleton.mp sign
        · exact absurd sign List.not_mem_nil
      rw [minus]
      rfl
    · exact isNumberChar_of_isDigit (Number.isDigit_toDigits c digit)
  · rw [Number.toList_toString]
    exact numberFits_whole _ _

theorem spelled_nat (depth n : Nat) : Spelled depth (toString n) (.number (toString n)) :=
  spelled_int depth n

/-! ## Plain characters -/

def Plain (chars : List Char) : Prop := ∀ c ∈ chars, 0x20 ≤ c.toNat

theorem plain_of_all {chars : List Char} (all : (chars.all fun c => 0x20 ≤ c.toNat) = true) :
    Plain chars := by
  simpa [Plain] using all

theorem plain_jsonChar (c : Char) : Plain (Text.jsonChar c).toList := by
  have controls : ∀ n < 0x20, ((Text.hex 4 n).toList.all fun c => 0x20 ≤ c.toNat) = true := by
    decide
  unfold Text.jsonChar
  split
  case h_8 =>
    split
    · rename_i escaped
      simp only [Bool.or_eq_true, decide_eq_true_eq, beq_iff_eq] at escaped
      rw [String.toList_append]
      refine List.forall_mem_append.mpr ⟨plain_of_all (by decide), plain_of_all ?_⟩
      rcases escaped with ((((control | rfl) | rfl) | rfl) | rfl) | rfl
      · exact controls _ control
      all_goals decide
    · rename_i plain
      simp only [Bool.or_eq_true, decide_eq_true_eq, not_or] at plain
      have spelled : c.toString.toList = [c] := String.toList_singleton c
      rw [spelled, Plain, List.forall_mem_singleton]
      omega
  all_goals exact plain_of_all (by decide)

theorem plain_json (text : String) : Plain (Text.json text).toList := by
  have quote : 0x20 ≤ '"'.toNat := by decide
  rw [Reader.toList_json, Plain, List.forall_mem_cons, List.forall_mem_append,
    List.forall_mem_singleton]
  refine ⟨quote, fun c isIn => ?_, quote⟩
  obtain ⟨from_, _, isIn⟩ := List.mem_flatMap.mp isIn
  exact plain_jsonChar from_ c isIn

theorem plain_of_isNumberChar {c : Char} (number : Reader.isNumberChar c = true) :
    0x20 ≤ c.toNat := by
  simp only [Reader.isNumberChar, Bool.or_eq_true, beq_iff_eq] at number
  rcases number with ((((digit | rfl) | rfl) | rfl) | rfl) | rfl
  · simp only [Char.isDigit, Bool.and_eq_true, decide_eq_true_eq, ge_iff_le,
      UInt32.le_iff_toNat_le] at digit
    exact Nat.le_trans (by decide) digit.1
  all_goals decide

theorem Plain.append {front back : List Char} (first : Plain front) (second : Plain back) :
    Plain (front ++ back) :=
  List.forall_mem_append.mpr ⟨first, second⟩

theorem plain_join : ∀ {texts : List String}, (∀ text ∈ texts, Plain text.toList) →
    Plain (Text.join "," texts).toList
  | [], _ => nofun
  | [only], each => by
    rw [Text.join, String.intercalate_singleton]
    exact each only (List.mem_singleton.mpr rfl)
  | first :: next :: rest, each => by
    obtain ⟨front, others⟩ := List.forall_mem_cons.mp each
    rw [Text.join, String.intercalate_cons_cons, String.toList_append, String.toList_append]
    exact (front.append (plain_of_all (by decide))).append (plain_join others)

namespace Spelled

variable {depth : Nat} {text : String} {value : JsonValue}

theorem readBack (spelled : Spelled depth text value) : Reader.ReadBack depth text value := by
  induction spelled with
  | text depth text => exact Reader.readBack_text depth text
  | number depth chars fits => exact Reader.readBack_number depth chars fits
  | object entries each ih =>
    refine Reader.readBack_of_taken fun fields key outer room => ?_
    refine Reader.stepAll_jsonObject ih ?_
    rw [List.length_cons]
    omega

theorem plain (spelled : Spelled depth text value) : Plain text.toList := by
  induction spelled with
  | text depth text => exact plain_json text
  | number depth chars fits => exact fun c isIn => plain_of_isNumberChar (chars c isIn)
  | object entries each ih =>
    rw [Reader.toList_jsonObject, ← List.singleton_append]
    refine (plain_of_all (by decide)).append (.append (plain_join ?_) (plain_of_all (by decide)))
    simp only [List.map_map, List.forall_mem_map, Function.comp_apply, String.toList_append]
    intro entry isIn
    exact ((plain_json entry.1).append (plain_of_all (by decide))).append (ih entry isIn)

theorem read? {entries : List (String × String × JsonValue)}
    (each : ∀ entry ∈ entries, Spelled depth entry.2.1 entry.2.2) (room : depth < nestingLimit) :
    JsonValue.read? (Text.jsonObject (entries.map fun entry => (entry.1, entry.2.1))) =
      some (.object (entries.map fun entry => (entry.1, entry.2.2))) := by
  have taken := Reader.stepAll_jsonObject (fun entry isIn => (each entry isIn).readBack)
    (show ([] : List Opened).length + depth < nestingLimit by simpa using room)
  rw [JsonValue.read?, ← Reader.stepAll, Reader.start, taken]
  rfl

end Spelled

end JsonValue
end Sapling
