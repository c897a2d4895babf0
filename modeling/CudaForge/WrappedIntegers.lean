import Mathlib.Tactic

/-!
# Integers of thirty-two bits

Conversion to a signed register of thirty-two bits: what fits stays, and what
does not comes back in range by a multiple of the register's size.
-/

namespace CudaForge.WrappedIntegers

/-- `INT_MAX`. -/
def intMax : ℕ := 2147483647

/-- What a register holds that a number is converted to. -/
def wrap (value : ℤ) : ℤ := value.bmod 4294967296

variable {value : ℤ}

/-- A number in range stays. -/
theorem wrap_eq (hlow : -2147483648 ≤ value) (hhigh : value < 2147483648) : wrap value=value :=
  Int.bmod_eq_of_le (by omega) (by omega)

/-- A converted number is in range. -/
theorem wrap_range (value : ℤ) : -2147483648 ≤ wrap value ∧ wrap value < 2147483648 := by
  rw [wrap,Int.bmod_def]
  split <;> omega

/-- It differs by a multiple of the register's size. -/
theorem wrap_shift (value : ℤ) : ∃ turns : ℤ, wrap value=value-turns*4294967296 := by
  refine ⟨value.bdiv 4294967296,?_⟩
  rw [wrap,Int.bmod_eq_self_sub_bdiv_mul]
  rfl

/-- A number just above the range comes back below it. -/
theorem wrap_over (hlow : 2147483648 ≤ value) (hhigh : value < 6442450944) :
    wrap value=value-4294967296 := by
  obtain ⟨turns,ht⟩ := wrap_shift value
  have hr := wrap_range value
  omega

/-- Converting on the way does not matter. -/
theorem wrap_sub (value other : ℤ) : wrap (wrap value-other)=wrap (value-other) :=
  Int.bmod_sub_bmod

/-- A quotient rounded up, as `int` arithmetic computes it. -/
def ceilDivInt (numerator denominator : ℤ) : ℤ :=
  (wrap (wrap (numerator+denominator)-1)).tdiv denominator

variable {count denominator : ℤ}

/-- The quotient of a numerator that was converted once. -/
theorem ceilDivInt_eq (count denominator : ℤ) :
    ceilDivInt count denominator=(wrap (count+denominator-1)).tdiv denominator := by
  rw [ceilDivInt,wrap_sub]

/-- A count that can be rounded up gets enough blocks. -/
theorem ceilDivInt_fits (hcount : 0<count) (hd : 0<denominator)
    (hfits : count+denominator-1 < 2147483648) :
    ceilDivInt count denominator=(count+denominator-1)/denominator := by
  rw [ceilDivInt_eq,wrap_eq (by omega) hfits,Int.tdiv_eq_ediv_of_nonneg (by omega)]

/-- One that cannot gets a negative number of them. -/
theorem ceilDivInt_over (hcount : count < 2147483648) (hd : 0<denominator)
    (hd' : denominator ≤ 1024) (hover : 2147483648 ≤ count+denominator-1) :
    ceilDivInt count denominator < 0 ∧ -2147483648 ≤ ceilDivInt count denominator := by
  have hneg : wrap (count+denominator-1)= -(4294967296-(count+denominator-1)) := by
    rw [wrap_over hover (by omega)]
    omega
  have hquot : 1 ≤ (4294967296-(count+denominator-1))/denominator :=
    (Int.le_ediv_iff_mul_le hd).mpr (by omega)
  have hle : (4294967296-(count+denominator-1))/denominator ≤
      4294967296-(count+denominator-1) := Int.ediv_le_self _ (by omega)
  rw [ceilDivInt_eq,hneg,Int.neg_tdiv,Int.tdiv_eq_ediv_of_nonneg (by omega)]
  omega

end CudaForge.WrappedIntegers
