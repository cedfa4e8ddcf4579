import Mathlib.Tactic.IntervalCases
import Holesail.Codec.Bytes

/-!
# Hexadecimal

`to_hex` and `from_hex` of `keys.cpp`, and the digit tables that `record.cpp` shares with them: the
writer's `kHex` and the reader's three digit ranges are spelled out in both source files and are
the same in both.
-/

namespace Holesail

def kHex : Bytes := ascii "0123456789abcdef"

def hexDigit (n : UInt8) : UInt8 := kHex.getD n.toNat 0

/-- The nibble that the digit `c` writes, in either case. The source's `-1` is `none`. -/
def nibbleOf (c : UInt8) : Option ℕ :=
  if 0x30 ≤ c ∧ c ≤ 0x39 then some (c.toNat - 0x30)
  else if 0x61 ≤ c ∧ c ≤ 0x66 then some (c.toNat - 0x61 + 10)
  else if 0x41 ≤ c ∧ c ≤ 0x46 then some (c.toNat - 0x41 + 10)
  else none

/-- Two digits for each byte, high nibble first. -/
def toHex (data : Bytes) : Bytes :=
  data.flatMap fun (b : UInt8) ↦ [hexDigit (b >>> 4), hexDigit (b &&& 0x0f)]

/-- The inverse of `toHex`. `none` on odd length or a character that is no digit. -/
def fromHex : Bytes → Option Bytes
  | [] => some []
  | [_] => none
  | h :: l :: s =>
    match nibbleOf h, nibbleOf l with
    | some hi, some lo => (fromHex s).map fun out ↦ (hi <<< 4 ||| lo).toUInt8 :: out
    | _, _ => none

/-! ## The round trip -/

theorem nibbleOf_hexDigit {n : UInt8} (h : n.toNat < 16) :
    nibbleOf (hexDigit n) = some n.toNat := by
  obtain ⟨k, rfl⟩ : ∃ k, n = UInt8.ofNat k := ⟨n.toNat, UInt8.ofNat_toNat.symm⟩
  rw [UInt8.toNat_ofNat'] at h
  have hk : UInt8.ofNat k = UInt8.ofNat (k % 2 ^ 8) := by
    rw [← UInt8.toNat_inj, UInt8.toNat_ofNat', UInt8.toNat_ofNat', Nat.mod_mod]
  rw [hk]
  generalize k % 2 ^ 8 = j at h
  interval_cases j <;> decide

theorem toNat_highNibble (b : UInt8) : (b >>> 4).toNat = b.toNat / 16 := by
  rw [UInt8.toNat_shiftRight, Nat.shiftRight_eq_div_pow]
  rfl

theorem toNat_lowNibble (b : UInt8) : (b &&& 0x0f).toNat = b.toNat % 16 := by
  rw [UInt8.toNat_and]
  exact Nat.and_two_pow_sub_one_eq_mod b.toNat 4

theorem nibbleOf_highDigit (b : UInt8) :
    nibbleOf (hexDigit (b >>> 4)) = some (b.toNat / 16) := by
  have hb := b.toNat_lt
  have hhigh := toNat_highNibble b
  rw [nibbleOf_hexDigit (by omega), hhigh]

theorem nibbleOf_lowDigit (b : UInt8) :
    nibbleOf (hexDigit (b &&& 0x0f)) = some (b.toNat % 16) := by
  have hlow := toNat_lowNibble b
  rw [nibbleOf_hexDigit (by omega), hlow]

theorem toUInt8_nibbles (b : UInt8) : ((b.toNat / 16) <<< 4 ||| b.toNat % 16).toUInt8 = b := by
  have hb := b.toNat_lt
  have hor : (b.toNat / 16) <<< 4 ||| b.toNat % 16 = b.toNat := by
    rw [← Nat.shiftLeft_add_eq_or_of_lt (i := 4) (by omega), Nat.shiftLeft_eq]
    omega
  rw [hor, Nat.toUInt8_eq, UInt8.ofNat_toNat]

@[simp] theorem length_toHex (data : Bytes) : (toHex data).length = 2 * data.length := by
  induction data with
  | nil => rfl
  | cons b data ih =>
    rw [toHex, List.flatMap_cons, ← toHex, List.length_append, ih, List.length_cons]
    simp only [List.length_cons, List.length_nil]
    omega

/-- **The hex round trip.** -/
@[simp] theorem fromHex_toHex (data : Bytes) : fromHex (toHex data) = some data := by
  induction data with
  | nil => rfl
  | cons b data ih =>
    rw [toHex, List.flatMap_cons, ← toHex, List.cons_append, List.cons_append, List.nil_append,
      fromHex, nibbleOf_highDigit, nibbleOf_lowDigit]
    simp only [ih, Option.map_some, toUInt8_nibbles]

end Holesail
