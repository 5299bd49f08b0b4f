import Mathlib.Data.List.Perm.Lattice
import Sapling.Proofs.Bindings
import Sapling.Proofs.Utf8

/-!
# Persistent maps from names

What a scope needs of the map that it is kept in: `NameMap`.  The map says what is bound to a name
and how many names are bound, and it can be taken apart, one name after another.  The names that
come out of it in this way are put in the order of their bytes.  Whatever the map is, each bound
name comes out once (`NameMap.keys_nodup`, `NameMap.mem_keys`); so a map that finds what a scope
finds has the size of the scope (`NameMap.Holds.size_eq`) and lists its names
(`NameMap.Holds.names_eq`).
-/

set_option autoImplicit false

namespace Sapling

theorem Scope.Ordered.names_nodup {scope : Scope} (ordered : scope.Ordered) :
    scope.names.Nodup :=
  ordered.imp fun less => String.ne_of_lt less

def Scope.bindEach (scope : Scope) (made : List (String × Value)) : Scope :=
  made.foldl (fun scope binding => Scope.bind scope binding.1 binding.2) scope

theorem Scope.bindEach_append (scope : Scope) (made more : List (String × Value)) :
    scope.bindEach (made ++ more) = (scope.bindEach made).bindEach more :=
  List.foldl_append

theorem Scope.find?_bindEach (made : List (String × Value)) (name : String) : ∀ scope : Scope,
    (scope.bindEach made).find? name = (made.reverse.lookup name).or (scope.find? name) := by
  induction made with
  | nil => exact fun scope => rfl
  | cons binding rest ih =>
    intro scope
    obtain ⟨bound, value⟩ := binding
    rw [bindEach, List.foldl_cons, ← bindEach, ih, find?_bind, List.reverse_cons,
      List.lookup_append, Option.or_assoc]
    congr 1
    by_cases same : bound = name
    · simp [same]
    · have differs : (name == bound) = false := by simpa using Ne.symm same
      simp [same, List.lookup_cons, differs]

/-- A persistent map from names to values. -/
structure NameMap (M : Type) where
  empty : M
  insert (map : M) (name : String) (value : Value) : M
  find? (map : M) (name : String) : Option Value
  size (map : M) : Nat
  /-- A name that is bound, and the map without it. -/
  firstRest (map : M) : String × M
  find?_empty (name : String) : find? empty name = none
  find?_insert (map : M) (name other : String) (value : Value) :
    find? (insert map name value) other = if name = other then some value else find? map other
  counted (map : M) : ∃ names : List String, names.Nodup ∧ names.length = size map ∧
    ∀ name, name ∈ names ↔ (find? map name).isSome
  first_bound (map : M) : 0 < size map → (find? map (firstRest map).1).isSome
  find?_rest (map : M) : 0 < size map → ∀ name,
    find? (firstRest map).2 name = if (firstRest map).1 = name then none else find? map name

namespace NameMap

variable {M : Type} (maps : NameMap M)

theorem size_eq_length {map : M} {names : List String} (nodup : names.Nodup)
    (bound : ∀ name, name ∈ names ↔ (maps.find? map name).isSome) :
    maps.size map = names.length := by
  obtain ⟨others, othersNodup, length, othersBound⟩ := maps.counted map
  have same : others.Perm names := by
    rw [List.perm_ext_iff_of_nodup othersNodup nodup]
    intro name
    rw [othersBound, bound]
  rw [← length, same.length_eq]

theorem size_rest {map : M} (more : 0 < maps.size map) :
    maps.size (maps.firstRest map).2 + 1 = maps.size map := by
  obtain ⟨names, nodup, length, bound⟩ := maps.counted map
  have first : (maps.firstRest map).1 ∈ names := (bound _).mpr (maps.first_bound map more)
  have rest : maps.size (maps.firstRest map).2 = (names.erase (maps.firstRest map).1).length := by
    apply maps.size_eq_length (nodup.erase _)
    intro name
    rw [nodup.mem_erase_iff, bound, maps.find?_rest map more]
    by_cases same : (maps.firstRest map).1 = name
    · simp [same]
    · simp [same, Ne.symm same]
  have positive := List.length_pos_of_mem first
  rw [rest, List.length_erase_of_mem first]
  omega

/-! ## Taking a map apart -/

def keys (map : M) : List String :=
  if _ : 0 < maps.size map then
    (maps.firstRest map).1 :: keys (maps.firstRest map).2
  else []
termination_by maps.size map
decreasing_by
  have := maps.size_rest ‹0 < maps.size map›
  omega

def names (map : M) : List String :=
  (maps.keys map).mergeSort fun name other => !decide (Text.toBytes other < Text.toBytes name)

theorem mem_keys (map : M) (name : String) :
    name ∈ maps.keys map ↔ (maps.find? map name).isSome := by
  induction left : maps.size map generalizing map with
  | zero =>
    have spent : ¬ 0 < maps.size map := by omega
    obtain ⟨names, -, length, bound⟩ := maps.counted map
    have none : names = [] := List.length_eq_zero_iff.mp (length.trans left)
    rw [keys, dif_neg spent, ← bound, none]
  | succ left ih =>
    have more : 0 < maps.size map := by omega
    have rest := maps.size_rest more
    rw [keys, dif_pos more, List.mem_cons, ih _ (by omega), maps.find?_rest map more]
    by_cases same : (maps.firstRest map).1 = name
    · simp [← same, maps.first_bound map more]
    · simp [same, Ne.symm same]

theorem keys_nodup (map : M) : (maps.keys map).Nodup := by
  induction left : maps.size map generalizing map with
  | zero =>
    have spent : ¬ 0 < maps.size map := by omega
    rw [keys, dif_neg spent]
    exact List.nodup_nil
  | succ left ih =>
    have more : 0 < maps.size map := by omega
    have rest := maps.size_rest more
    rw [keys, dif_pos more, List.nodup_cons]
    refine ⟨?_, ih _ (by omega)⟩
    -- the first name is not bound in the rest
    rw [mem_keys, maps.find?_rest map more, if_pos rfl]
    simp

theorem mem_names (map : M) (name : String) :
    name ∈ maps.names map ↔ (maps.find? map name).isSome := by
  rw [names, (List.mergeSort_perm _ _).mem_iff, mem_keys]

theorem names_nodup (map : M) : (maps.names map).Nodup :=
  (List.mergeSort_perm _ _).nodup_iff.mpr (maps.keys_nodup map)

theorem length_names (map : M) : (maps.names map).length = maps.size map :=
  (maps.size_eq_length (maps.names_nodup map) (maps.mem_names map)).symm

theorem names_increasing (map : M) : (maps.names map).Pairwise (· < ·) := by
  let notAfter (name other : String) : Bool := !decide (Text.toBytes other < Text.toBytes name)
  have notAfter_iff (name other : String) : notAfter name other = true ↔ name ≤ other := by
    simp only [notAfter, Text.toBytes_lt_iff, Bool.not_eq_true', decide_eq_false_iff_not]
    exact String.not_lt
  have sorted : (maps.names map).Pairwise fun name other => notAfter name other = true := by
    apply List.pairwise_mergeSort
    · intro a b c first second
      rw [notAfter_iff] at *
      exact String.le_trans first second
    · intro a b
      rw [Bool.or_eq_true, notAfter_iff, notAfter_iff]
      exact String.le_total a b
  refine (List.pairwise_and_iff.mpr ⟨sorted, maps.names_nodup map⟩).imp ?_
  rintro a b ⟨first, differs⟩
  exact Std.lt_of_le_of_ne ((notAfter_iff a b).mp first) differs

theorem names_bytewise (map : M) :
    (maps.names map).Pairwise fun name other => Text.toBytes name < Text.toBytes other :=
  (maps.names_increasing map).imp Text.toBytes_lt_iff.mpr

/-! ## Maps that stand for scopes -/

/-- The map finds what the scope finds. -/
def Holds (map : M) (scope : Scope) : Prop := ∀ name, maps.find? map name = scope.find? name

def ofScope (scope : Scope) : M :=
  scope.foldr (fun binding map => maps.insert map binding.1 binding.2) maps.empty

def insertEach (map : M) (made : List (String × Value)) : M :=
  made.foldl (fun map binding => maps.insert map binding.1 binding.2) map

theorem empty_holds : maps.Holds maps.empty Scope.empty := maps.find?_empty

theorem ofScope_holds (scope : Scope) : maps.Holds (maps.ofScope scope) scope := by
  intro name
  induction scope with
  | nil => exact maps.find?_empty name
  | cons binding rest ih =>
    rw [ofScope, List.foldr_cons, maps.find?_insert, ← ofScope, ih]
    rfl

namespace Holds

variable {maps} {map : M} {scope : Scope} (holds : maps.Holds map scope)
include holds

theorem insert (name : String) (value : Value) :
    maps.Holds (maps.insert map name value) (scope.bind name value) := by
  intro other
  rw [maps.find?_insert, Scope.find?_bind, holds]

theorem insertEach (made : List (String × Value)) :
    maps.Holds (maps.insertEach map made) (scope.bindEach made) := by
  induction made generalizing map scope with
  | nil => exact holds
  | cons binding rest ih => exact ih (holds.insert binding.1 binding.2)

theorem size_eq (ordered : scope.Ordered) : maps.size map = scope.length := by
  have size : maps.size map = scope.names.length := by
    apply maps.size_eq_length ordered.names_nodup
    intro name
    rw [Scope.mem_names_iff, Scope.has, holds]
  rw [size, Scope.names, List.length_map]

/-- The map lists the names of the scope: lists in order with the same members are the same. -/
theorem names_eq (ordered : scope.Ordered) : maps.names map = scope.names := by
  have increasing := maps.names_increasing map
  have same : (maps.names map).Perm scope.names := by
    rw [List.perm_ext_iff_of_nodup (maps.names_nodup map) ordered.names_nodup]
    intro name
    rw [maps.mem_names, Scope.mem_names_iff, Scope.has, holds]
  exact same.eq_of_pairwise (fun a b _ _ less more => absurd more (String.lt_asymm less)) increasing
    ordered

end Holds

/-! ## Scopes in order are such maps -/

def ordered : NameMap {scope : Scope // scope.Ordered} where
  empty := ⟨Scope.empty, Scope.empty_ordered⟩
  insert map name value := ⟨map.1.bind name value, map.2.bind name value⟩
  find? map name := map.1.find? name
  size map := map.1.length
  firstRest
    | ⟨[], order⟩ => ("", ⟨[], order⟩)
    | ⟨binding :: rest, order⟩ => (binding.1, ⟨rest, (List.pairwise_cons.mp order).2⟩)
  find?_empty name := rfl
  find?_insert map name other value := Scope.find?_bind map.1 name other value
  counted map :=
    ⟨map.1.names, map.2.names_nodup, List.length_map _,
      fun name => Scope.mem_names_iff⟩
  first_bound := by
    rintro ⟨scope, order⟩ more
    cases scope with
    | nil => cases more
    | cons binding rest => simp [Scope.find?]
  find?_rest := by
    rintro ⟨scope, order⟩ more name
    cases scope with
    | nil => cases more
    | cons binding rest =>
      obtain ⟨first, later⟩ := List.pairwise_cons.mp order
      by_cases same : binding.1 = name
      · have absent : name ∉ Scope.names rest := fun isIn =>
          String.lt_irrefl name (same ▸ first name isIn)
        rw [Scope.mem_names_iff, Scope.has] at absent
        simpa [same] using absent
      · simp [Scope.find?, same]

end NameMap
end Sapling
