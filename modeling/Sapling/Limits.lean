/-!
# Limits and statistics

Nested calls are bounded.  A limit that is not positive means the usual one, and no limit goes
beyond the ceiling.
-/

set_option autoImplicit false

namespace Sapling

def usualDepth : Nat := 10000

def depthCeiling : Nat := 100000

def effectiveDepth (setting : Int) : Nat :=
  if setting ≤ 0 then usualDepth else min setting.toNat depthCeiling

theorem effectiveDepth_le (setting : Int) : effectiveDepth setting ≤ depthCeiling := by
  unfold effectiveDepth usualDepth depthCeiling
  split <;> omega

/-- What an evaluation used: the calls now open, the most that were ever open, and the calls and
statements made. -/
structure Tracker where
  depth : Nat
  maxSeen : Nat
  calls : Nat
  statements : Nat
  deriving DecidableEq, Repr, Inhabited

def Tracker.zero : Tracker := ⟨0, 0, 0, 0⟩

def Tracker.enter (t : Tracker) : Tracker :=
  { t with depth := t.depth + 1, maxSeen := max t.maxSeen (t.depth + 1), calls := t.calls + 1 }

def Tracker.leave (t : Tracker) : Tracker := { t with depth := t.depth - 1 }

end Sapling
