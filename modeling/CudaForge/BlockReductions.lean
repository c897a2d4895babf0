import CudaForge.WarpReductions

/-!
# The block-wide reductions of the device code

`block_reduce_sum` and `block_reduce_max` as the threads of one block execute
them together: registers are functions of the thread, shared memory is a
function of the slot, and what lies between two barriers is one function of what
was there before.
-/

namespace CudaForge.BlockReductions

open Finset WarpReductions

variable {M : Type} [AddCommMonoid M]

/-- `kWarpSize`. -/
def warpSize : ℕ := 32

/-- `kDefaultBlockSize`. -/
def defaultBlockSize : ℕ := 256

/-- `ceil_div`. -/
def ceilDiv (numerator denominator : ℕ) : ℕ := (numerator+denominator-1)/denominator

/-- The loop of `warp_reduce_sum`, for at most so many turns. -/
def shuffleLoop : ℕ → ℕ → (ℕ → M) → ℕ → M
  | 0,_,values => values
  | turns+1,offset,values =>
    if 0 < offset then shuffleLoop turns (offset/2) (addDown warpSize offset values) else values

/-- `warp_reduce_sum`, in every warp at once. -/
def warpReduceSum (values : ℕ → M) : ℕ → M := shuffleLoop warpSize (warpSize/2) values

/-- `block_reduce_sum`: what it returns to each thread, and the shared memory
it leaves. -/
def blockReduceSum (blockDim : ℕ) (values shared : ℕ → M) : (ℕ → M)×(ℕ → M) :=
  let warpCount := ceilDiv blockDim warpSize
  let reduced := warpReduceSum values
  -- the first lane of each warp stores its sum
  let stored := fun slot =>
    if slot*warpSize < blockDim then reduced (slot*warpSize) else shared slot
  let loaded := fun thread => if thread < warpCount then stored (thread%warpSize) else 0
  -- the first warp reduces what was stored, and its first lane stores the sum
  let left := Function.update stored 0 (warpReduceSum loaded 0)
  (fun _ => left 0,left)

/-- The loop's offsets are the halving powers of two. -/
theorem warpReduceSum_eq (values : ℕ → M) : warpReduceSum values=reduceDown warpSize 5 values :=
  rfl

/-- The first lane of a warp ends with the sum of its warp. -/
theorem warpReduceSum_first (values : ℕ → M) (warp : ℕ) :
    warpReduceSum values (warp*warpSize)=
      ∑ lane ∈ range warpSize,values (warp*warpSize+lane) := by
  have hw : 2^5≤warpSize := by decide
  rw [warpReduceSum_eq]
  exact reduceDown_first 5 hw (Nat.mul_mod_left warp warpSize) values

/-- As many warps as the threads fill. -/
theorem ceilDiv_warps (warps : ℕ) : ceilDiv (warps*warpSize) warpSize=warps := by
  rw [ceilDiv,warpSize]
  omega

/-- The first warp adds up what the warps have stored, each by its first lane. -/
theorem warpReduceSum_stored {warps : ℕ} (hm : warps≤warpSize) (values : ℕ → M) {loaded : ℕ → M}
    (hl : ∀ warp < warps, loaded warp=warpReduceSum values (warp*warpSize))
    (hz : ∀ lane < warpSize, warps ≤ lane → loaded lane=0) :
    warpReduceSum loaded 0=∑ other ∈ range (warps*warpSize),values other := by
  have hfirst := warpReduceSum_first loaded 0
  simp only [Nat.zero_mul,Nat.zero_add] at hfirst
  rw [hfirst,sum_padded hm hz,sum_warps]
  refine sum_congr rfl (fun warp hw => ?_)
  rw [hl warp (mem_range.mp hw),warpReduceSum_first]

/-- Every thread of a block of whole warps is given the sum over all threads,
whatever the shared memory held. -/
theorem blockReduceSum_eq {warps : ℕ} (hm : warps≤warpSize)
    (values shared : ℕ → M) (thread : ℕ) :
    (blockReduceSum (warps*warpSize) values shared).1 thread=
      ∑ other ∈ range (warps*warpSize),values other := by
  have hpos : 0 < warpSize := by decide
  simp only [blockReduceSum,Function.update_self,ceilDiv_warps]
  refine warpReduceSum_stored hm values (fun warp hl => ?_)
    (fun lane _ hl => if_neg (Nat.not_lt.mpr hl))
  rw [if_pos hl,Nat.mod_eq_of_lt (hl.trans_le hm),if_pos (Nat.mul_lt_mul_of_pos_right hl hpos)]

section Maximum

variable [LinearOrder M]

/-- The loop of `warp_reduce_max`, for at most so many turns. -/
def shuffleMaxLoop : ℕ → ℕ → (ℕ → M) → ℕ → M
  | 0,_,values => values
  | turns+1,offset,values =>
    if 0 < offset then shuffleMaxLoop turns (offset/2) (maxDown warpSize offset values)
    else values

/-- `warp_reduce_max`, in every warp at once. -/
def warpReduceMax (values : ℕ → M) : ℕ → M := shuffleMaxLoop warpSize (warpSize/2) values

/-- `block_reduce_max`: what it returns to each thread, and the shared memory
it leaves. -/
def blockReduceMax (blockDim : ℕ) (values shared : ℕ → M) (identity : M) : (ℕ → M)×(ℕ → M) :=
  let warpCount := ceilDiv blockDim warpSize
  let reduced := warpReduceMax values
  let stored := fun slot =>
    if slot*warpSize < blockDim then reduced (slot*warpSize) else shared slot
  let loaded := fun thread =>
    if thread < warpCount then stored (thread%warpSize) else identity
  let left := Function.update stored 0 (warpReduceMax loaded 0)
  (fun _ => left 0,left)

omit [AddCommMonoid M] in
/-- The first lane of a warp ends with the maximum of its warp. -/
theorem warpReduceMax_le_iff (values : ℕ → M) (warp : ℕ) (bound : M) :
    warpReduceMax values (warp*warpSize)≤bound ↔
      ∀ lane < warpSize, values (warp*warpSize+lane)≤bound :=
  reduceMaxDown_le_iff 5 (by decide) (Nat.mul_mod_left warp warpSize) values bound

omit [AddCommMonoid M] in
/-- Every thread of a block of whole warps is given the maximum over all threads,
when no value is below the one that stands for none. -/
theorem blockReduceMax_le_iff {warps : ℕ} (hpos : 0<warps) (hm : warps≤warpSize)
    (values shared : ℕ → M) {identity : M} (hid : ∀ thread, identity≤values thread)
    (thread : ℕ) (bound : M) :
    (blockReduceMax (warps*warpSize) values shared identity).1 thread≤bound ↔
      ∀ other < warps*warpSize, values other≤bound := by
  simp only [blockReduceMax,Function.update_self,ceilDiv_warps]
  rw [←Nat.zero_mul warpSize,warpReduceMax_le_iff,Nat.zero_mul]
  have hstored : ∀ warp < warps,
      ((if warp%warpSize*warpSize < warps*warpSize then
        warpReduceMax values (warp%warpSize*warpSize) else shared (warp%warpSize))≤bound ↔
      ∀ lane < warpSize, values (warp*warpSize+lane)≤bound) := by
    intro warp hl
    rw [Nat.mod_eq_of_lt (hl.trans_le hm),
      if_pos (Nat.mul_lt_mul_of_pos_right hl (show 0<warpSize by decide)),warpReduceMax_le_iff]
  simp only [Nat.zero_add]
  constructor
  · intro h other ho
    have hdiv : other/warpSize<warps := Nat.div_lt_of_lt_mul (Nat.mul_comm _ _ ▸ ho)
    have hw := h (other/warpSize) (hdiv.trans_le hm)
    rw [if_pos hdiv,hstored _ hdiv] at hw
    have hv := hw (other%warpSize) (Nat.mod_lt _ (by decide))
    rwa [Nat.div_add_mod'] at hv
  · intro h warp hl
    split
    · next hw =>
      refine (hstored warp hw).mpr (fun lane hlane => h _ ?_)
      have hle := Nat.mul_le_mul_right warpSize (Nat.succ_le_of_lt hw)
      rw [Nat.succ_mul] at hle
      omega
    · refine (hid 0).trans (h 0 ?_)
      exact Nat.mul_pos hpos (by decide)

end Maximum

end CudaForge.BlockReductions
