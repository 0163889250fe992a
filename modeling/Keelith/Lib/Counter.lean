import Mathlib.Data.Nat.Basic
import Mathlib.Tactic.Ring

/-!
# 64-bit counters

The sources count revisions, fences and frame sequences in `uint64`. The model keeps `UInt64`,
with its wrap-around, and the proofs move to `Nat` by the rules of this file:

* `toNat_succ`: a counter below `maxUint64` (`math.MaxUint64`) increments without a wrap;
* `window_iff`: the test `sequence-floor+1 == len` of a retained window, with the guards that the
  sources put before it, says that the window is `floor, …, sequence` (possibly empty).
-/

namespace Keelith

/-- `math.MaxUint64`. -/
def maxUint64 : UInt64 := 0xffffffffffffffff

theorem toNat_maxUint64 : maxUint64.toNat = 2 ^ 64 - 1 := rfl

theorem toNat_lt_two_pow (x : UInt64) : x.toNat < 2 ^ 64 := x.toNat_lt

variable {x : UInt64}

theorem ne_maxUint64_iff : x ≠ maxUint64 ↔ x.toNat + 1 < 2 ^ 64 := by
  have h := toNat_lt_two_pow x
  rw [ne_eq, ← UInt64.toNat_inj, toNat_maxUint64]
  omega

theorem toNat_succ (h : x ≠ maxUint64) : (x + 1).toNat = x.toNat + 1 := by
  have := ne_maxUint64_iff.mp h
  rw [UInt64.toNat_add, UInt64.toNat_one, Nat.mod_eq_of_lt this]

theorem succ_ne_self (x : UInt64) : x + 1 ≠ x := by
  intro h
  have := congrArg UInt64.toNat h
  rw [UInt64.toNat_add, UInt64.toNat_one] at this
  omega

theorem pos_of_ne_zero (h : x ≠ 0) : 1 ≤ x.toNat := by
  have : x.toNat ≠ 0 := fun h0 => h (UInt64.toNat_inj.mp (by simpa using h0))
  omega

theorem ne_zero_of_pos (h : 1 ≤ x.toNat) : x ≠ 0 := by
  rintro rfl; simp at h

/-- An index below `2 ^ 64` survives the conversion to `uint64`. -/
theorem toNat_ofNat_lt {n : Nat} (h : n < 2 ^ 64) : (UInt64.ofNat n).toNat = n :=
  UInt64.toNat_ofNat_of_lt' h

theorem toNat_add_ofNat {n : Nat} (h : x.toNat + n < 2 ^ 64) :
    (x + UInt64.ofNat n).toNat = x.toNat + n := by
  rw [UInt64.toNat_add, toNat_ofNat_lt (by omega), Nat.mod_eq_of_lt h]

/-- The retained window `floor, …, sequence` has `n` items. -/
theorem window_iff {floor sequence : UInt64} {n : Nat} :
    (floor ≠ 0 ∧ ¬ (floor > sequence ∧ floor ≠ sequence + 1) ∧
      (sequence - floor + 1).toNat = n) ↔
    1 ≤ floor.toNat ∧ floor.toNat + n = sequence.toNat + 1 := by
  have hf := toNat_lt_two_pow floor
  have hs := toNat_lt_two_pow sequence
  have e : (sequence - floor + 1).toNat =
      ((2 ^ 64 - floor.toNat + sequence.toNat) % 2 ^ 64 + 1) % 2 ^ 64 := by
    rw [UInt64.toNat_add, UInt64.toNat_sub, UInt64.toNat_one]
  have e1 : (sequence + 1).toNat = (sequence.toNat + 1) % 2 ^ 64 := by
    rw [UInt64.toNat_add, UInt64.toNat_one]
  rw [gt_iff_lt, UInt64.lt_iff_toNat_lt, ne_eq, ne_eq, ← UInt64.toNat_inj, ← UInt64.toNat_inj,
    UInt64.toNat_zero]
  omega

end Keelith
