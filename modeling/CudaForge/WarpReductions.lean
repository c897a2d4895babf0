import Mathlib.Tactic

/-!
# Sums over groups of lanes

Threads are grouped into warps of equal width. In a round of a reduction
every lane adds the value of the lane a fixed distance above it in its warp;
halving distances leave the sum of the warp in its first lane. A sum over
all threads is the sum of the sums of the warps.
-/

namespace CudaForge.WarpReductions

open Finset

variable {M : Type} [AddCommMonoid M]

/-- The value of the lane `offset` above in the same warp; a lane that has
none above it reads its own. -/
def shuffleDown (width offset : ℕ) (values : ℕ → M) (thread : ℕ) : M :=
  if thread%width+offset<width then values (thread+offset) else values thread

/-- Every lane adds what it reads from above. -/
def addDown (width offset : ℕ) (values : ℕ → M) (thread : ℕ) : M :=
  values thread+shuffleDown width offset values thread

/-- Rounds with halving distances, the last of which is one. -/
def reduceDown (width : ℕ) : ℕ → (ℕ → M) → ℕ → M
  | 0,values => values
  | rounds+1,values => reduceDown width rounds (addDown width (2^rounds) values)

/-- The first lane of a warp ends with the sum of the lanes in reach. -/
theorem reduceDown_first {width : ℕ} (rounds : ℕ) (hw : 2^rounds≤width) {first : ℕ}
    (hf : first%width=0) (values : ℕ → M) :
    reduceDown width rounds values first=∑ lane ∈ range (2^rounds),values (first+lane) := by
  induction rounds generalizing values with
  | zero => simp only [reduceDown,pow_zero,range_one,sum_singleton,Nat.add_zero]
  | succ rounds ih =>
    have hd : 2^(rounds+1)=2^rounds+2^rounds := by rw [pow_succ,Nat.mul_two]
    rw [hd] at hw
    rw [reduceDown,ih (by omega),hd,sum_range_add,←sum_add_distrib]
    refine sum_congr rfl (fun lane hl => ?_)
    have hl := mem_range.mp hl
    have hm : (first+lane)%width=lane := by
      rw [Nat.add_mod,hf,Nat.zero_add,Nat.mod_mod,Nat.mod_eq_of_lt (by omega)]
    rw [addDown,shuffleDown,hm,if_pos (by omega)]
    congr 2
    omega

/-- A sum over all threads, warp by warp. -/
theorem sum_warps (width warps : ℕ) (values : ℕ → M) :
    ∑ thread ∈ range (warps*width),values thread=
      ∑ warp ∈ range warps,∑ lane ∈ range width,values (warp*width+lane) := by
  induction warps with
  | zero => simp only [Nat.zero_mul,range_zero,sum_empty]
  | succ warps ih => rw [Nat.succ_mul,sum_range_add,ih,sum_range_succ]

/-- Threads past a bound that hold nothing add nothing. -/
theorem sum_padded {count threads : ℕ} (hc : count≤threads) {values : ℕ → M}
    (hz : ∀ thread < threads, count ≤ thread → values thread=0) :
    ∑ thread ∈ range threads,values thread=∑ thread ∈ range count,values thread := by
  refine (sum_subset (range_subset_range.mpr hc) (fun thread ht hn => ?_)).symm
  exact hz thread (mem_range.mp ht) (Nat.le_of_not_lt (fun hl => hn (mem_range.mpr hl)))

section Maxima

variable [LinearOrder M]

/-- Every lane keeps the larger of its value and what it reads from above. -/
def maxDown (width offset : ℕ) (values : ℕ → M) (thread : ℕ) : M :=
  max (values thread) (shuffleDown width offset values thread)

/-- Rounds with halving distances, the last of which is one. -/
def reduceMaxDown (width : ℕ) : ℕ → (ℕ → M) → ℕ → M
  | 0,values => values
  | rounds+1,values => reduceMaxDown width rounds (maxDown width (2^rounds) values)

omit [AddCommMonoid M] in
/-- The first lane of a warp ends with the maximum of the lanes in reach. -/
theorem reduceMaxDown_le_iff {width : ℕ} (rounds : ℕ) (hw : 2^rounds≤width) {first : ℕ}
    (hf : first%width=0) (values : ℕ → M) (bound : M) :
    reduceMaxDown width rounds values first≤bound ↔
      ∀ lane < 2^rounds, values (first+lane)≤bound := by
  induction rounds generalizing values with
  | zero =>
    constructor
    · intro h lane hl
      obtain rfl : lane=0 := by omega
      exact h
    · intro h
      exact h 0 Nat.one_pos
  | succ rounds ih =>
    have hd : 2^(rounds+1)=2^rounds+2^rounds := by rw [pow_succ,Nat.mul_two]
    rw [hd] at hw
    have hlane : ∀ lane < 2^rounds, maxDown width (2^rounds) values (first+lane)≤bound ↔
        values (first+lane)≤bound ∧ values (first+(2^rounds+lane))≤bound := by
      intro lane hl
      have hm : (first+lane)%width=lane := by
        rw [Nat.add_mod,hf,Nat.zero_add,Nat.mod_mod,Nat.mod_eq_of_lt (by omega)]
      have he : first+lane+2^rounds=first+(2^rounds+lane) := by omega
      rw [maxDown,shuffleDown,hm,if_pos (by omega),max_le_iff,he]
    rw [reduceMaxDown,ih (by omega),hd]
    constructor
    · intro h lane hl
      by_cases hlow : lane<2^rounds
      · exact ((hlane lane hlow).mp (h lane hlow)).1
      · have hhigh := ((hlane (lane-2^rounds) (by omega)).mp (h _ (by omega))).2
        rwa [Nat.add_sub_cancel' (Nat.le_of_not_lt hlow)] at hhigh
    · intro h lane hl
      exact (hlane lane hl).mpr ⟨h lane (by omega),h _ (by omega)⟩

end Maxima

end CudaForge.WarpReductions
