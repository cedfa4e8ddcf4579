import Mathlib.Data.UInt

/-!
# Decimal digits

The bytes `0` to `9`, and the number that a run of them spells.
-/

namespace Decimal

def isDigit (c : UInt8) : Bool := 0x30 ≤ c && c ≤ 0x39

/-- The number that digits spell. -/
def digitsValue (ds : List UInt8) : ℕ := ds.foldl (fun v d ↦ 10 * v + (d.toNat - 0x30)) 0

theorem isDigit_eq_true_iff {c : UInt8} :
    isDigit c = true ↔ 0x30 ≤ c.toNat ∧ c.toNat ≤ 0x39 := by
  rw [isDigit, Bool.and_eq_true, decide_eq_true_iff, decide_eq_true_iff]
  rfl

theorem ne_of_isDigit {c d : UInt8} (hc : isDigit c = true) (hd : isDigit d = false) : c ≠ d := by
  rintro rfl
  rw [hc] at hd
  exact Bool.noConfusion hd

end Decimal
