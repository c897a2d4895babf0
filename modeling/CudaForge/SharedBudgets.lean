import CudaForge.LoraKernels

/-!
# Shared memory that the launchers ask for

A kernel's static arrays and the dynamic bytes of its launch come out of the
same budget per block. `launch_softmax` counts the static array of the kernel it
selects, and each of its launches fits. `launch_lora_linear` counts the dynamic
bytes alone: where these fit but leave less room than the tiles of `lora_fused`
take, its launch exceeds the budget.
-/

namespace CudaForge.SharedBudgets

open BlockReductions LoraKernels SoftmaxKernels

/-- The kernels of the two launchers. -/
inductive Kernel where
  /-- `softmax_naive`. -/
  | softmaxNaive
  /-- `softmax_shared`. -/
  | softmaxShared
  /-- `softmax_online`. -/
  | softmaxOnline
  /-- `matmul_tiled`. -/
  | matmulTiled
  /-- `accumulate_lora`. -/
  | accumulateLora
  /-- `lora_fused`. -/
  | loraFused
  deriving DecidableEq,Repr

/-- The `__shared__` arrays that a kernel declares with a size, in floats. -/
def Kernel.staticArrays : Kernel → List ℕ
  -- `scratch`
  | .softmaxNaive => [warpSize]
  | .softmaxShared => [warpSize]
  -- `shared_max` and `shared_sum`
  | .softmaxOnline => [warpSize,warpSize]
  -- `tile_a` and `tile_b`
  | .matmulTiled => [kTile*kTile,kTile*(kTile+1)]
  | .accumulateLora => []
  -- `tile_x` and `tile_w`
  | .loraFused => [kTile*kTile,kTile*(kTile+1)]

/-- The static shared memory of a kernel, in bytes. -/
def Kernel.staticBytes (kernel : Kernel) : ℕ := kernel.staticArrays.sum*floatBytes

/-- A kernel launch with its dynamic shared memory. -/
structure KernelLaunch where
  /-- The kernel. -/
  kernel : Kernel
  /-- The bytes that the launch asks for. -/
  dynamicBytes : ℕ
  deriving DecidableEq,Repr

/-- The shared memory that a block of a launch takes. -/
def KernelLaunch.sharedBytes (launch : KernelLaunch) : ℕ :=
  launch.kernel.staticBytes+launch.dynamicBytes

/-- The launches of `launch_softmax`. -/
def softmaxLaunches (maxSharedMemoryPerBlock : ℕ) (variant : SoftmaxKernel) (rows cols : ℤ) :
    List KernelLaunch :=
  if rows≤0 ∨ cols≤0 then []
  else
    match selectKernel maxSharedMemoryPerBlock variant cols.toNat with
    | .naive => [⟨.softmaxNaive,0⟩]
    | .sharedMemory => [⟨.softmaxShared,cols.toNat*floatBytes⟩]
    | .online => [⟨.softmaxOnline,0⟩]

/-- The launches of `launch_matmul`. -/
def matmulLaunches (m n k : ℤ) : List KernelLaunch :=
  if m≤0 ∨ n≤0 ∨ k≤0 then [] else [⟨.matmulTiled,0⟩]

/-- The launches of `launch_lora_linear`. Without a workspace the unfused path throws
before its first. -/
def loraLaunches (maxSharedMemoryPerBlock : ℕ) (variant : LoRAKernel)
    (batch inFeatures outFeatures rank : ℤ) (workspace : Bool) : List KernelLaunch :=
  if batch≤0 ∨ inFeatures≤0 ∨ outFeatures≤0 ∨ rank≤0 then []
  else if fusable maxSharedMemoryPerBlock variant rank.toNat then
    [⟨.loraFused,fusedShared rank.toNat⟩]
  else if workspace then
    matmulLaunches batch outFeatures inFeatures++matmulLaunches batch rank inFeatures++
      [⟨.accumulateLora,0⟩]
  else []

/-- Every launch stays within a device's shared memory per block. -/
def Fits (maxSharedMemoryPerBlock : ℕ) (launches : List KernelLaunch) : Prop :=
  ∀ launch∈launches, launch.sharedBytes ≤ maxSharedMemoryPerBlock

instance (maxSharedMemoryPerBlock : ℕ) (launches : List KernelLaunch) :
    Decidable (Fits maxSharedMemoryPerBlock launches) :=
  inferInstanceAs (Decidable (∀ launch∈launches, launch.sharedBytes ≤ maxSharedMemoryPerBlock))

section Softmax

variable {limit : ℕ}

/-- A launcher that launches nothing. -/
theorem fits_nil : Fits limit [] := fun _ hm => absurd hm List.not_mem_nil

/-- One launch. -/
theorem fits_singleton {launch : KernelLaunch} : Fits limit [launch] ↔ launch.sharedBytes≤limit :=
  List.forall_mem_singleton

/-- The shared-memory kernel is selected when its static and its dynamic part fit
together. -/
theorem selectKernel_sharedMemory {variant : SoftmaxKernel} {cols : ℕ}
    (h : selectKernel limit variant cols=.sharedMemory) :
    Kernel.softmaxShared.staticBytes+cols*floatBytes≤limit := by
  have hstatic : Kernel.softmaxShared.staticBytes=warpSize*floatBytes := rfl
  unfold selectKernel at h
  split at h
  · cases h
  · next hneg =>
    rw [hstatic,Nat.add_comm]
    exact Nat.le_of_not_lt (fun hlt => hneg ⟨h,hlt⟩)

/-- Each launch of `launch_softmax` fits wherever its fallback does. -/
theorem softmax_fits (hfallback : Kernel.softmaxOnline.staticBytes≤limit)
    (variant : SoftmaxKernel) (rows cols : ℤ) :
    Fits limit (softmaxLaunches limit variant rows cols) := by
  have hnaive : Kernel.softmaxNaive.staticBytes≤Kernel.softmaxOnline.staticBytes := by decide
  unfold softmaxLaunches
  split
  · exact fits_nil
  · split
    · exact fits_singleton.mpr (hnaive.trans hfallback)
    · next hselected => exact fits_singleton.mpr (selectKernel_sharedMemory hselected)
    · exact fits_singleton.mpr hfallback

end Softmax

section Lora

variable {limit : ℕ} {variant : LoRAKernel} {batch inFeatures outFeatures rank : ℤ}

/-- The launches of the unfused path fit wherever `matmul_tiled` does. -/
theorem matmul_fits (hfallback : Kernel.matmulTiled.staticBytes≤limit) (m n k : ℤ) :
    Fits limit (matmulLaunches m n k) := by
  unfold matmulLaunches
  split
  · exact fits_nil
  · exact fits_singleton.mpr hfallback

/-- A call whose intermediate leaves less room than the tiles of `lora_fused` take:
sixteen rows of sixteen and of seventeen floats. -/
def InBand (limit : ℕ) (variant : LoRAKernel) (batch inFeatures outFeatures rank : ℤ) : Prop :=
  0<batch ∧ 0 < inFeatures ∧ 0<outFeatures ∧ 0<rank ∧ variant=.fused ∧
    64*rank≤limit ∧ limit<64*rank+2112

/-- The launches of `launch_lora_linear` fit in every other call. -/
theorem lora_fits_iff (hfallback : Kernel.matmulTiled.staticBytes≤limit) (workspace : Bool) :
    Fits limit (loraLaunches limit variant batch inFeatures outFeatures rank workspace) ↔
      ¬InBand limit variant batch inFeatures outFeatures rank := by
  have hshared : fusedShared rank.toNat=64*rank.toNat := by
    unfold fusedShared kTile floatBytes
    omega
  unfold loraLaunches InBand
  split
  · exact iff_of_true fits_nil (by omega)
  · next hpos =>
    have hrank : (rank.toNat : ℤ)=rank := Int.toNat_of_nonneg (by omega)
    split
    · next hf =>
      obtain ⟨hvariant,hle⟩ := of_decide_eq_true hf
      have hbytes : (⟨.loraFused,fusedShared rank.toNat⟩ : KernelLaunch).sharedBytes=
          2112+fusedShared rank.toNat := rfl
      rw [hshared] at hle hbytes
      rw [fits_singleton,hshared,hbytes]
      constructor
      · rintro hfits ⟨_,_,_,_,_,_,hlt⟩
        omega
      · intro hout
        by_contra hlt
        exact hout ⟨by omega,by omega,by omega,by omega,hvariant,by omega,by omega⟩
    · next hf =>
      refine iff_of_true ?_ ?_
      · split
        · intro launch hm
          rcases List.mem_append.mp hm with hm|hm
          · rcases List.mem_append.mp hm with hm|hm
            · exact matmul_fits hfallback _ _ _ launch hm
            · exact matmul_fits hfallback _ _ _ launch hm
          · rw [List.mem_singleton.mp hm]
            exact Nat.zero_le limit
        · exact fits_nil
      · rintro ⟨_,_,_,_,hvariant,hle,_⟩
        refine hf (decide_eq_true ⟨hvariant,?_⟩)
        rw [hshared]
        omega

end Lora

/-- Both launchers stay within the budget, where it covers the static part of their
fallbacks. -/
def KeepBudget (limit : ℕ) (loraVariant : LoRAKernel) (batch inFeatures outFeatures rank : ℤ)
    (workspace : Bool) (softmaxVariant : SoftmaxKernel) (rows cols : ℤ) : Prop :=
  (Kernel.matmulTiled.staticBytes≤limit → Fits limit
    (loraLaunches limit loraVariant batch inFeatures outFeatures rank workspace)) ∧
  (Kernel.softmaxOnline.staticBytes≤limit → Fits limit
    (softmaxLaunches limit softmaxVariant rows cols))

/-- The launchers keep the budget of a device exactly outside the band of ranks whose
intermediate fits while the tiles besides do not. -/
theorem keepBudget_iff (limit : ℕ) (loraVariant : LoRAKernel)
    (batch inFeatures outFeatures rank : ℤ) (workspace : Bool) (softmaxVariant : SoftmaxKernel)
    (rows cols : ℤ) :
    KeepBudget limit loraVariant batch inFeatures outFeatures rank workspace softmaxVariant rows
      cols ↔ ¬(2112≤limit ∧ InBand limit loraVariant batch inFeatures outFeatures rank) := by
  have hstatic : Kernel.matmulTiled.staticBytes=2112 := rfl
  rw [KeepBudget,hstatic,not_and]
  constructor
  · intro h hfallback
    exact (lora_fits_iff hfallback workspace).mp (h.1 hfallback)
  · intro h
    refine ⟨fun hfallback => (lora_fits_iff hfallback workspace).mpr (h hfallback),?_⟩
    exact fun hfallback => softmax_fits hfallback softmaxVariant rows cols

/-- On a device with 48 KiB, rank 768 fills the budget with the intermediate, and the
launch asks for the tiles besides. -/
theorem rank768_exceeds : ¬KeepBudget 49152 .fused 32 4096 4096 768 true .online 32 4096 := by
  intro h
  have hfits : Fits 49152 (loraLaunches 49152 .fused 32 4096 4096 768 true) := h.1 (by decide)
  exact absurd hfits (by decide)

end CudaForge.SharedBudgets
