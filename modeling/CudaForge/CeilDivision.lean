import Mathlib.Algebra.Order.Floor.Div
import Mathlib.Tactic

/-!
# Ceiling division of natural numbers

How many blocks of a fixed size cover a count, how much of the last block
stays unused, and how the cover grows with the count.
-/

namespace CudaForge.CeilDivision

/-- The cover reaches the count. -/
theorem le_ceilDiv_mul {size : ℕ} (hs : 0<size) (count : ℕ) :
    count≤(count ⌈/⌉ size)*size := by
  have h := le_smul_ceilDiv (b:=count) hs
  rwa [smul_eq_mul,Nat.mul_comm] at h

/-- The cover exceeds the count by less than one block. -/
theorem ceilDiv_mul_lt {size : ℕ} (hs : 0<size) (count : ℕ) :
    (count ⌈/⌉ size)*size<count+size := by
  rw [Nat.ceilDiv_eq_add_pred_div]
  have h := Nat.div_mul_le_self (count+size-1) size
  omega

/-- A number of blocks is enough exactly when it covers the count. -/
theorem ceilDiv_le_iff {size : ℕ} (hs : 0<size) (count blocks : ℕ) :
    count ⌈/⌉ size≤blocks ↔ count≤blocks*size := by
  rw [ceilDiv_le_iff_le_smul hs,smul_eq_mul,Nat.mul_comm]

/-- Whole blocks already held are taken off the cover. -/
theorem ceilDiv_sub_add {size count held : ℕ} (hs : 0<size) (hc : held*size≤count) :
    held+(count-held*size) ⌈/⌉ size=count ⌈/⌉ size := by
  have he : count+size-1=count-held*size+size-1+held*size := by omega
  rw [Nat.ceilDiv_eq_add_pred_div,Nat.ceilDiv_eq_add_pred_div,he,Nat.add_mul_div_right _ _ hs,
    Nat.add_comm]

/-- A count that stays within its cover needs no further block. -/
theorem ceilDiv_eq_of_le {size count wanted : ℕ} (hs : 0<size) (hw : count≤wanted)
    (hc : wanted≤(count ⌈/⌉ size)*size) : wanted ⌈/⌉ size=count ⌈/⌉ size := by
  apply Nat.le_antisymm
  · exact (ceilDiv_le_iff hs _ _).mpr hc
  · exact (ceilDiv_le_iff hs _ _).mpr (hw.trans (le_ceilDiv_mul hs wanted))

/-- Nothing is covered by no block, and only nothing is. -/
theorem ceilDiv_eq_zero_iff {size : ℕ} (hs : 0<size) (count : ℕ) :
    count ⌈/⌉ size=0 ↔ count=0 := by
  have h := ceilDiv_le_iff hs count 0
  rw [Nat.zero_mul] at h
  omega

end CudaForge.CeilDivision
