import Sapling.Text.Utf8
import Mathlib.Data.List.Basic
import Mathlib.Tactic.Ring

/-!
# Texts and their bytes

The bytes of a text give the text back (`Text.ofBytes_toBytes`), and the order of texts is the order
of their bytes (`Text.toBytes_lt_iff`).  Both come from the four shapes that the bytes of a
character can have (`Text.utf8EncodeChar_width`).
-/

set_option autoImplicit false

namespace Sapling.Text

/-! ## Bytes of characters -/

theorem toList_loop (bytes : ByteArray) (index : Nat) (done : List UInt8) :
    ByteArray.toList.loop bytes index done = done.reverse ++ bytes.data.toList.drop index := by
  fun_induction ByteArray.toList.loop bytes index done with
  | case1 index done inside ih =>
    have bound : index < bytes.data.toList.length := by simpa using inside
    have here : bytes.get! index = bytes.data.toList[index] := by
      show bytes.data[index]! = _
      simp [getElem!_pos bytes.data index inside]
    rw [ih, List.drop_eq_getElem_cons bound, here]
    simp
  | case2 index done outside =>
    rw [List.drop_eq_nil_of_le (by simpa using Nat.le_of_not_lt outside)]
    simp

theorem toBytes_ofList (chars : List Char) :
    toBytes (String.ofList chars) = chars.flatMap String.utf8EncodeChar := by
  show (chars.flatMap String.utf8EncodeChar).toByteArray.toList = _
  rw [ByteArray.toList, toList_loop, List.data_toByteArray]
  simp

theorem toBytes_eq_flatMap (text : String) :
    toBytes text = text.toList.flatMap String.utf8EncodeChar := by
  rw [← toBytes_ofList, String.ofList_toList]

theorem toBytes_append (front back : String) :
    toBytes (front ++ back) = toBytes front ++ toBytes back := by
  simp [toBytes_eq_flatMap]

def continuation : (count : Nat) → Nat → List UInt8
  | 0, _ => []
  | count + 1, n => .ofNat (n / 64 ^ count % 64 + 0x80) :: continuation count n

/-- How numbers are spelled: how many bytes follow the first, what marks the first, and from where
to where the numbers go. -/
structure Width where
  count : Nat
  mark : Nat
  least : Nat
  limit : Nat

def widths : List Width :=
  [⟨0, 0, 0, 0x80⟩, ⟨1, 0xC0, 0x80, 0x800⟩, ⟨2, 0xE0, 0x800, 0x10000⟩,
    ⟨3, 0xF0, 0x10000, 0x110000⟩]

theorem cases_of_mem_widths {width : Width} (isWidth : width ∈ widths) :
    width = ⟨0, 0, 0, 0x80⟩ ∨ width = ⟨1, 0xC0, 0x80, 0x800⟩ ∨ width = ⟨2, 0xE0, 0x800, 0x10000⟩ ∨
      width = ⟨3, 0xF0, 0x10000, 0x110000⟩ := by
  simpa [widths] using isWidth

theorem first_lt {width : Width} (isWidth : width ∈ widths) {n : Nat} (limit : n < width.limit) :
    n / 64 ^ width.count + width.mark < 256 := by
  rcases cases_of_mem_widths isWidth with rfl | rfl | rfl | rfl <;> simp at * <;> omega

theorem utf8EncodeChar_width (c : Char) :
    ∃ width ∈ widths, width.least ≤ c.toNat ∧ c.toNat < width.limit ∧
      String.utf8EncodeChar c =
        .ofNat (c.toNat / 64 ^ width.count + width.mark) :: continuation width.count c.toNat := by
  have bound : c.toNat < 0x110000 := by
    have valid : c.toNat.isValidChar := c.valid
    omega
  have value : c.val.toNat = c.toNat := rfl
  simp only [widths, List.mem_cons, List.not_mem_nil, or_false, exists_eq_or_imp, exists_eq_left]
  rw [String.utf8EncodeChar, value]
  by_cases one : c.toNat ≤ 127
  · refine .inl ⟨by omega, by omega, ?_⟩
    simp [one, continuation]
  by_cases two : c.toNat ≤ 2047
  · refine .inr (.inl ⟨by omega, by omega, ?_⟩)
    have high : c.toNat / 64 % 32 = c.toNat / 64 := Nat.mod_eq_of_lt (by omega)
    simp [one, two, continuation, high]
  by_cases three : c.toNat ≤ 65535
  · refine .inr (.inr (.inl ⟨by omega, by omega, ?_⟩))
    have high : c.toNat / 4096 % 16 = c.toNat / 4096 := Nat.mod_eq_of_lt (by omega)
    simp [one, two, three, continuation, high]
  · refine .inr (.inr (.inr ⟨by omega, by omega, ?_⟩))
    have high : c.toNat / 262144 % 8 = c.toNat / 262144 := Nat.mod_eq_of_lt (by omega)
    simp [one, two, three, continuation, high]

theorem le_of_mem_utf8EncodeChar {c : Char} (plain : 0x20 ≤ c.toNat) {byte : UInt8}
    (member : byte ∈ String.utf8EncodeChar c) : 0x20 ≤ byte.toNat := by
  have later {count n : Nat} (member : byte ∈ continuation count n) : 0x20 ≤ byte.toNat := by
    induction count with
    | zero => exact absurd member List.not_mem_nil
    | succ count ih =>
      rcases List.mem_cons.mp member with rfl | member
      · rw [UInt8.toNat_ofNat']
        omega
      · exact ih member
  obtain ⟨width, isWidth, least, limit, spelled⟩ := utf8EncodeChar_width c
  rw [spelled] at member
  rcases List.mem_cons.mp member with rfl | member
  · rw [UInt8.toNat_ofNat', Nat.mod_eq_of_lt (first_lt isWidth limit)]
    rcases cases_of_mem_widths isWidth with rfl | rfl | rfl | rfl <;> simp at *
    omega
  · exact later member

/-! ## Order -/

theorem ofNat_lt_ofNat {a b : Nat} (less : a < b) (bound : b < 256) :
    UInt8.ofNat a < UInt8.ofNat b := by
  rw [UInt8.lt_iff_toNat_lt, UInt8.toNat_ofNat', UInt8.toNat_ofNat']
  omega

theorem continuation_lt {n m : Nat} (less : n < m) {count : Nat}
    (high : n / 64 ^ count = m / 64 ^ count) (after rest : List UInt8) :
    continuation count n ++ after < continuation count m ++ rest := by
  induction count with
  | zero =>
    simp only [Nat.pow_zero, Nat.div_one] at high
    omega
  | succ count ih =>
    simp only [continuation, List.cons_append]
    rw [List.cons_lt_cons_iff]
    rw [Nat.pow_succ, ← Nat.div_div_eq_div_mul, ← Nat.div_div_eq_div_mul] at high
    have le : n / 64 ^ count ≤ m / 64 ^ count := Nat.div_le_div_right (Nat.le_of_lt less)
    by_cases same : n / 64 ^ count = m / 64 ^ count
    · exact .inr ⟨by rw [same], ih same⟩
    · exact .inl (ofNat_lt_ofNat (by omega) (by omega))

/-- The bytes of two characters decide which of them is less, whatever follows. -/
theorem utf8EncodeChar_lt {c d : Char} (less : c < d) (after rest : List UInt8) :
    String.utf8EncodeChar c ++ after < String.utf8EncodeChar d ++ rest := by
  have numbers : c.toNat < d.toNat := less
  obtain ⟨width, isWidth, least, limit, cs⟩ := utf8EncodeChar_width c
  obtain ⟨other, isOther, otherLeast, otherLimit, ds⟩ := utf8EncodeChar_width d
  rw [cs, ds, List.cons_append, List.cons_append, List.cons_lt_cons_iff]
  by_cases high : width = other ∧ c.toNat / 64 ^ width.count = d.toNat / 64 ^ width.count
  · obtain ⟨rfl, high⟩ := high
    exact .inr ⟨by rw [high], continuation_lt numbers high after rest⟩
  · refine .inl (ofNat_lt_ofNat ?_ (first_lt isOther otherLimit))
    rcases cases_of_mem_widths isWidth with rfl | rfl | rfl | rfl <;>
      rcases cases_of_mem_widths isOther with rfl | rfl | rfl | rfl <;> simp at * <;> omega

theorem flatMap_utf8EncodeChar_lt {chars others : List Char} (less : chars < others) :
    chars.flatMap String.utf8EncodeChar < others.flatMap String.utf8EncodeChar := by
  induction chars generalizing others with
  | nil =>
    cases others with
    | nil => exact absurd less (List.lt_irrefl _)
    | cons other rest =>
      obtain ⟨width, _, _, _, spelled⟩ := utf8EncodeChar_width other
      simp [spelled]
  | cons c chars ih =>
    cases others with
    | nil => exact absurd less (by simp)
    | cons other rest =>
      rw [List.flatMap_cons, List.flatMap_cons]
      rcases List.cons_lt_cons_iff.mp less with first | ⟨rfl, later⟩
      · exact utf8EncodeChar_lt first _ _
      · exact List.append_left_lt (ih later)

theorem toBytes_lt_iff {text other : String} :
    toBytes text < toBytes other ↔ text < other := by
  have forward {text other : String} (less : text < other) : toBytes text < toBytes other := by
    rw [toBytes_eq_flatMap, toBytes_eq_flatMap]
    exact flatMap_utf8EncodeChar_lt (String.lt_iff.mp less)
  refine ⟨fun less => ?_, forward⟩
  by_contra notLess
  have le : other ≤ text := String.not_lt.mp notLess
  by_cases greater : other < text
  · exact List.lt_asymm (forward greater) less
  · rw [String.le_antisymm le (String.not_lt.mp greater)] at less
    exact List.lt_irrefl _ less

/-! ## Reading back -/

theorem foldl_following (n : Nat) (count : Nat) :
    (continuation count n).foldl following (some (n / 64 ^ count)) = some n := by
  induction count with
  | zero => simp [continuation]
  | succ count ih =>
    have byte : (UInt8.ofNat (n / 64 ^ count % 64 + 0x80)).toNat = n / 64 ^ count % 64 + 0x80 := by
      rw [UInt8.toNat_ofNat']
      omega
    have code : n / 64 ^ (count + 1) * 64 + n / 64 ^ count % 64 = n / 64 ^ count := by
      rw [Nat.pow_succ, ← Nat.div_div_eq_div_mul]
      omega
    rw [continuation, List.foldl_cons, following, byte, if_pos (by omega)]
    simp only [Option.map_some, Nat.add_sub_cancel, code]
    exact ih

theorem length_continuation (count n : Nat) : (continuation count n).length = count := by
  induction count with
  | zero => rfl
  | succ count ih => simp [continuation, ih]

theorem leading_of_width {width : Width} (isWidth : width ∈ widths) {n : Nat}
    (least : width.least ≤ n) (limit : n < width.limit) :
    leading (.ofNat (n / 64 ^ width.count + width.mark)) =
      some (width.count + 1, n / 64 ^ width.count, width.least) := by
  simp only [leading, UInt8.toNat_ofNat', Nat.mod_eq_of_lt (first_lt isWidth limit)]
  rcases cases_of_mem_widths isWidth with rfl | rfl | rfl | rfl <;> simp at * <;> grind

theorem nextChar_utf8EncodeChar {c : Char} {first : UInt8} {more : List UInt8}
    (spelled : String.utf8EncodeChar c = first :: more) (rest : List UInt8) :
    nextChar first (more ++ rest) = some (c, more.length) := by
  obtain ⟨width, isWidth, least, limit, shape⟩ := utf8EncodeChar_width c
  obtain ⟨rfl, rfl⟩ := List.cons.inj (spelled.symm.trans shape)
  have valid : c.toNat.isValidChar := c.valid
  simp only [nextChar, leading_of_width isWidth least limit, Nat.add_sub_cancel]
  rw [List.take_left' (length_continuation _ _)]
  simp [length_continuation, foldl_following, least, valid]

theorem lettersFrom_append (chars : List Char) :
    ∀ (rest : List UInt8) (done : List Letter),
      lettersFrom (chars.flatMap String.utf8EncodeChar ++ rest) done =
        lettersFrom rest ((chars.map Letter.char).reverse ++ done) := by
  induction chars with
  | nil => simp
  | cons c chars ih =>
    intro rest done
    obtain ⟨width, _, _, _, spelled⟩ := utf8EncodeChar_width c
    rw [List.flatMap_cons, List.append_assoc, spelled, List.cons_append, lettersFrom,
      nextChar_utf8EncodeChar spelled]
    simp only [List.drop_left, ih]
    simp

theorem letters_toBytes (text : String) : letters (toBytes text) = text.toList.map .char := by
  have read := lettersFrom_append text.toList [] []
  rw [List.append_nil, ← toBytes_eq_flatMap] at read
  rw [letters, read, lettersFrom]
  simp

theorem ofBytes_toBytes (text : String) : ofBytes (toBytes text) = text := by
  rw [ofBytes, letters_toBytes, List.map_map]
  have shown : Letter.shown ∘ Letter.char = id := rfl
  rw [shown, List.map_id, String.ofList_toList]

end Sapling.Text
