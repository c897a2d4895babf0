import CudaForge.QuantisedBlocks
import CudaForge.RowMajor
import CudaForge.WrappedIntegers

/-!
# The launches of the elementwise operators

The bindings `silu_cuda`, `gelu_cuda`, `swiglu_cuda` and `quantize_int8_cuda` with
their launchers and kernels. A binding converts the number of elements to an `int`,
the launcher rounds it up to blocks in `int` arithmetic, and the grid's size is
unsigned. What torch and the device do is a parameter. A call that returns should
have written every element once; the conversion comes back in range for tensors
that are too large, and then it has not.
-/

namespace CudaForge.ElementwiseLaunches

open BlockReductions QuantisedBlocks WrappedIntegers

/-- `ScalarType`. -/
inductive ScalarType where
  | uint8
  | int8
  | int16
  | int32
  | int64
  | half
  | bfloat16
  | float32
  | float64
  | bool
  deriving DecidableEq,Repr

/-- A tensor on the device. -/
structure Tensor (K : Type) where
  /-- Its shape. -/
  sizes : List ℕ
  /-- What its elements are. -/
  scalarType : ScalarType
  /-- Whether its elements lie one behind another. -/
  contiguous : Bool
  /-- Where its data begins. -/
  address : ℕ
  /-- Its elements in memory. -/
  data : ℕ → K

/-- `numel`. -/
def Tensor.numel {K : Type} (tensor : Tensor K) : ℕ := tensor.sizes.prod

/-- The error that a call reports. -/
inductive Failure where
  /-- `check_last_dim_contiguous`. -/
  | notContiguous (name : String)
  /-- `check_float32`. -/
  | notFloat32 (name : String) (got : ScalarType)
  /-- Two tensors differ in shape. -/
  | shapes (gate up : List ℕ)
  /-- torch makes no tensor of this size. -/
  | empty (size : ℤ)
  /-- torch makes no such view of a tensor of this size. -/
  | view (size : ℤ) (sizes : List ℕ)
  /-- The device refuses a launch. -/
  | launch (grid block : ℕ)
  deriving DecidableEq,Repr

/-- What torch and the device accept. -/
structure Runtime where
  /-- `torch::empty` of a flat tensor. -/
  empty : ℤ → Bool
  /-- `view_as` from a flat tensor. -/
  view : ℤ → List ℕ → Bool
  /-- A launch of so many blocks of so many threads. -/
  launches : ℕ → ℕ → Bool

/-- What their documentation says about that. -/
structure Runtime.Documented (r : Runtime) : Prop where
  /-- No tensor has a negative size. -/
  empty : ∀ size, r.empty size=true → 0 ≤ size
  /-- A view has as many elements. -/
  view : ∀ size sizes, r.view size sizes=true → size=sizes.prod
  /-- A grid has blocks, fewer than 2^31 of them, and a block at most 1024 threads. -/
  launches : ∀ grid block, r.launches grid block=true ↔
    1≤grid ∧ grid < 2147483648 ∧ 1≤block ∧ block≤1024

section Launchers

/-- `static_cast<std::size_t>`. -/
def toSize (value : ℤ) : ℕ := (value%18446744073709551616).toNat

/-- A launch: what its threads store, one after another. -/
def launch {S : Type} (r : Runtime) (grid : ℤ) (blockDim : ℕ) (kernel : ℕ → ℕ → List S) :
    Except Failure (List S) :=
  -- a grid's size is unsigned
  let gridDim := (grid%4294967296).toNat
  if r.launches gridDim blockDim then
    .ok ((List.range gridDim).flatMap (fun block => (List.range blockDim).flatMap (kernel block)))
  else .error (.launch gridDim blockDim)

/-- `SwiGLUKernel`. -/
inductive SwiGLUKernel where
  /-- One thread per element. -/
  | scalar
  /-- Four elements per thread. -/
  | vectorised
  deriving DecidableEq,Repr

variable {K : Type}

/-- A kernel with a thread for each element: what a thread stores. -/
def elementKernel (value : ℕ → K) (count : ℤ) (block thread : ℕ) : List (ℕ×K) :=
  let index := block*defaultBlockSize+thread
  if index<toSize count then [(index,value index)] else []

/-- A launcher of such a kernel. -/
def launchElements (r : Runtime) (value : ℕ → K) (count : ℤ) : Except Failure (List (ℕ×K)) :=
  if count≤0 then .ok []
  else launch r (ceilDivInt count defaultBlockSize) defaultBlockSize (elementKernel value count)

/-- `launch_silu`. -/
def launchSilu (r : Runtime) (silu : K → K) (input : ℕ → K) (count : ℤ) :
    Except Failure (List (ℕ×K)) :=
  launchElements r (fun index => silu (input index)) count

/-- `launch_gelu`. -/
def launchGelu (r : Runtime) (geluTanh : K → K) (input : ℕ → K) (count : ℤ) :
    Except Failure (List (ℕ×K)) :=
  launchElements r (fun index => geluTanh (input index)) count

/-- `vectorisable`. -/
def vectorisable (gate up output : ℕ) (count : ℤ) : Bool :=
  count.tmod 4=0 && gate%16=0 && up%16=0 && output%16=0

/-- `swiglu_vectorised`: what a thread stores at once. -/
def swigluVectorised (value : ℕ → K) (vecCount : ℤ) (block thread : ℕ) : List (ℕ×K) :=
  let index := block*defaultBlockSize+thread
  if toSize vecCount ≤ index then []
  else (List.range 4).map (fun lane => (index*4+lane,value (index*4+lane)))

/-- `launch_swiglu`, for data at these addresses. -/
def launchSwiglu [Mul K] (r : Runtime) (silu : K → K) (gate up : ℕ → K)
    (gateAddress upAddress outputAddress : ℕ) (count : ℤ) (variant : SwiGLUKernel) :
    Except Failure (List (ℕ×K)) :=
  let value := fun index => silu (gate index)*up index
  if count≤0 then .ok []
  else if variant=.vectorised ∧ vectorisable gateAddress upAddress outputAddress count then
    let vecCount := count.tdiv 4
    launch r (ceilDivInt vecCount defaultBlockSize) defaultBlockSize
      (swigluVectorised value vecCount)
  else launch r (ceilDivInt count defaultBlockSize) defaultBlockSize (elementKernel value count)

/-- `launch_quantize_int8`: what is stored to the output and to the scales. -/
def launchQuantizeInt8Int (r : Runtime) (shared : ℕ → ℕ → ℚ) (input : ℕ → ℚ) (count : ℤ) :
    Except Failure (List (List (ℕ×ℤ)×List (ℕ×ℚ))) :=
  if count≤0 then .ok []
  else launch r (quantScaleCount count) quantBlockSize
    (fun block thread => [quantizeInt8 input (toSize count) (shared block) block thread])

end Launchers

section Bindings

variable {K : Type}

/-- `check_float32`. -/
def checkFloat32 (tensor : Tensor K) (name : String) : Except Failure Unit :=
  if tensor.scalarType=.float32 then .ok () else .error (.notFloat32 name tensor.scalarType)

/-- `check_last_dim_contiguous`. -/
def checkLastDimContiguous (tensor : Tensor K) (name : String) : Except Failure Unit :=
  if tensor.contiguous then .ok () else .error (.notContiguous name)

/-- `silu_cuda`: what is stored to the output. -/
def siluCuda (r : Runtime) (silu : K → K) (input : Tensor K) : Except Failure (List (ℕ×K)) := do
  checkFloat32 input "input"
  checkLastDimContiguous input "input"
  launchSilu r silu input.data (wrap input.numel)

/-- `gelu_cuda`: what is stored to the output. -/
def geluCuda (r : Runtime) (geluTanh : K → K) (input : Tensor K) :
    Except Failure (List (ℕ×K)) := do
  checkFloat32 input "input"
  checkLastDimContiguous input "input"
  launchGelu r geluTanh input.data (wrap input.numel)

/-- `swiglu_cuda`, whose output gets an address: what is stored to it. -/
def swigluCuda [Mul K] (r : Runtime) (silu : K → K) (outputAddress : ℕ) (gate up : Tensor K) :
    Except Failure (List (ℕ×K)) := do
  checkFloat32 gate "gate"
  checkFloat32 up "up"
  checkLastDimContiguous gate "gate"
  checkLastDimContiguous up "up"
  if gate.sizes≠up.sizes then throw (.shapes gate.sizes up.sizes)
  launchSwiglu r silu gate.data up.data gate.address up.address outputAddress (wrap gate.numel)
    .vectorised

/-- `torch::empty` of a flat tensor of so many elements. -/
def makeEmpty (r : Runtime) (size : ℤ) : Except Failure Unit :=
  if r.empty size then .ok () else .error (.empty size)

/-- `view_as` of a flat tensor. -/
def viewAs (r : Runtime) (size : ℤ) (sizes : List ℕ) : Except Failure Unit :=
  if r.view size sizes then .ok () else .error (.view size sizes)

/-- `quantize_int8_cuda`: what is stored to the output and to the scales. -/
def quantizeInt8Cuda (r : Runtime) (shared : ℕ → ℕ → ℚ) (input : Tensor ℚ) :
    Except Failure (List (List (ℕ×ℤ)×List (ℕ×ℚ))) := do
  checkFloat32 input "input"
  checkLastDimContiguous input "input"
  let count := wrap input.numel
  makeEmpty r count
  makeEmpty r (quantScaleCount count)
  let stored ← launchQuantizeInt8Int r shared input.data count
  viewAs r count input.sizes
  return stored

end Bindings

section Grids

variable {count : ℤ}

/-- A positive `int` is the same `size_t`. -/
theorem toSize_eq (hcount : 0≤count) (hhigh : count < 2147483648) : toSize count=count.toNat := by
  rw [toSize]
  omega

variable {r : Runtime} {S : Type} {grid : ℤ} {blockDim : ℕ} {kernel : ℕ → ℕ → List S}

/-- A positive grid is launched. -/
theorem launch_ok (hr : r.Documented) (hgrid : 0<grid) (hhigh : grid < 2147483648)
    (hblock : 1≤blockDim) (hblock' : blockDim≤1024) :
    launch r grid blockDim kernel=.ok ((List.range grid.toNat).flatMap
      (fun block => (List.range blockDim).flatMap (kernel block))) := by
  have hmod : (grid%4294967296).toNat=grid.toNat := by omega
  rw [launch,hmod,if_pos ((hr.launches _ _).mpr ⟨by omega,by omega,hblock,hblock'⟩)]

/-- A negative one is refused. -/
theorem launch_refused (hr : r.Documented) (hgrid : grid < 0) (hlow : -2147483648 ≤ grid) :
    ∃ failure, launch r grid blockDim kernel=.error failure := by
  refine ⟨_,if_neg (fun h => ?_)⟩
  obtain ⟨_,hlt,_⟩ := (hr.launches _ _).mp h
  omega

end Grids

section Places

variable {K : Type}

/-- Places up to a bound, each guarded by it. -/
theorem flatMap_guarded {bound total : ℕ} (h : bound≤total) :
    (List.range total).flatMap (fun i => if i<bound then [i] else [])=List.range bound := by
  obtain ⟨extra,rfl⟩ := Nat.exists_eq_add_of_le h
  have hin : (List.range bound).flatMap (fun i => if i<bound then [i] else [])=
      List.range bound := by
    rw [List.flatMap_congr (fun i hm => if_pos (List.mem_range.mp hm))]
    exact List.flatMap_singleton' _
  have hout : ((List.range extra).map (bound+·)).flatMap
      (fun i => if i<bound then [i] else [])=[] := by
    refine List.flatMap_eq_nil_iff.mpr (fun i hm => ?_)
    obtain ⟨j,_,rfl⟩ := List.mem_map.mp hm
    exact if_neg (Nat.not_lt.mpr (Nat.le_add_right bound j))
  rw [List.range_add,List.flatMap_append,hin,hout,List.append_nil]

/-- The places that a grid with a thread for each element stores to. -/
theorem elementKernel_places (value : ℕ → K) {count : ℤ} {blocks : ℕ}
    (hcover : toSize count ≤ blocks*defaultBlockSize) :
    ((List.range blocks).flatMap (fun block => (List.range defaultBlockSize).flatMap
      (elementKernel value count block))).map Prod.fst=List.range (toSize count) := by
  have hthread : ∀ block thread, (elementKernel value count block thread).map Prod.fst=
      if block*defaultBlockSize+thread<toSize count then [block*defaultBlockSize+thread]
      else [] := by
    intro block thread
    rw [elementKernel]
    split <;> rfl
  simp only [List.map_flatMap,hthread]
  rw [RowMajor.flatMap_rows (fun i => if i<toSize count then [i] else []),flatMap_guarded hcover]

/-- The places that a grid with four elements for each thread stores to. -/
theorem swigluVectorised_places (value : ℕ → K) {vecCount : ℤ} {blocks : ℕ}
    (hcover : toSize vecCount ≤ blocks*defaultBlockSize) :
    ((List.range blocks).flatMap (fun block => (List.range defaultBlockSize).flatMap
      (swigluVectorised value vecCount block))).map Prod.fst=
        List.range (toSize vecCount*4) := by
  have hthread : ∀ block thread, (swigluVectorised value vecCount block thread).map Prod.fst=
      (if block*defaultBlockSize+thread<toSize vecCount then [block*defaultBlockSize+thread]
      else []).flatMap (fun index => (List.range 4).flatMap (fun lane => [index*4+lane])) := by
    intro block thread
    rw [swigluVectorised]
    by_cases hin : block*defaultBlockSize+thread<toSize vecCount
    · rw [if_neg (Nat.not_le.mpr hin),if_pos hin,List.flatMap_singleton]
      rfl
    · rw [if_pos (Nat.le_of_not_lt hin),if_neg hin]
      rfl
  have hlanes : (List.range (toSize vecCount)).flatMap (fun index =>
      (List.range 4).flatMap (fun lane => [index*4+lane]))=List.range (toSize vecCount*4) := by
    rw [RowMajor.flatMap_rows (fun i => [i])]
    exact List.flatMap_singleton' _
  rw [←hlanes,←flatMap_guarded hcover,
    ←RowMajor.flatMap_rows (fun i => if i<toSize vecCount then [i] else [])]
  simp only [List.map_flatMap,hthread,List.flatMap_assoc]

end Places

section Coverage

variable {K : Type} {numel : ℕ} {r : Runtime}

/-- A call that returns has stored to each place below the number of elements once,
and to no other. -/
def Covered (numel : ℕ) (outcome : Except Failure (List (ℕ×K))) : Prop :=
  ∀ stored, outcome=.ok stored → (stored.map Prod.fst).Perm (List.range numel)

/-- A call that reports an error has nothing to cover. -/
theorem covered_error (failure : Failure) :
    Covered numel (.error failure : Except Failure (List (ℕ×K))) := by
  intro stored h
  cases h

/-- A call that returns with the places up to a bound covers just as many. -/
theorem covered_ok_iff {stored : List (ℕ×K)} {bound : ℕ}
    (h : stored.map Prod.fst=List.range bound) :
    Covered numel (.ok stored : Except Failure (List (ℕ×K))) ↔ bound=numel := by
  constructor
  · intro hc
    have hp := hc stored rfl
    rw [h] at hp
    have hlength := hp.length_eq
    rwa [List.length_range,List.length_range] at hlength
  · rintro rfl other ho
    obtain rfl := Except.ok.inj ho
    exact List.Perm.of_eq h

/-- A positive conversion gives the number of elements exactly when it fits. -/
theorem wrap_numel_iff (hpos : 0<wrap (numel : ℤ)) :
    toSize (wrap numel)=numel ↔ numel < 2147483648 := by
  have hr := wrap_range (numel : ℤ)
  rw [toSize_eq hpos.le hr.2]
  constructor
  · intro he
    omega
  · intro hlt
    rw [wrap_eq (by omega) (by omega),Int.toNat_natCast]

/-- A launch without a positive count stores nothing. -/
theorem covered_none (hn : 1≤numel) (hcount : wrap (numel : ℤ) ≤ 0) :
    (Covered numel (.ok [] : Except Failure (List (ℕ×K))) ↔ numel < 2147483648) := by
  have hno : ¬numel < 2147483648 := by
    intro hlt
    rw [wrap_eq (by omega) (by omega)] at hcount
    omega
  refine iff_of_false ?_ hno
  rw [@covered_ok_iff K numel [] 0 rfl]
  omega

/-- A launch with a thread for each element covers the tensor, unless the conversion
came back in range; a count that cannot be rounded up is refused. -/
theorem elementLaunch_covered_iff (hr : r.Documented) (value : ℕ → K)
    (hpos : 0<wrap (numel : ℤ)) :
    Covered numel (launch r (ceilDivInt (wrap numel) defaultBlockSize) defaultBlockSize
      (elementKernel value (wrap numel))) ↔
        numel < 2147483648 ∨ 2147483392 < wrap (numel : ℤ) := by
  have hrange := wrap_range (numel : ℤ)
  have hsize : (defaultBlockSize : ℤ)=256 := rfl
  by_cases hover : 2147483392 < wrap (numel : ℤ)
  · refine iff_of_true ?_ (Or.inr hover)
    obtain ⟨hneg,hlow⟩ := @ceilDivInt_over (wrap numel) defaultBlockSize hrange.2 (by omega)
      (by omega) (by omega)
    obtain ⟨failure,he⟩ := @launch_refused r (ℕ×K) _ defaultBlockSize
      (elementKernel value (wrap numel)) hr hneg hlow
    rw [he]
    exact covered_error failure
  · have hgrid := @ceilDivInt_fits (wrap numel) defaultBlockSize hpos (by omega) (by omega)
    rw [hsize] at hgrid
    have hcover : toSize (wrap numel) ≤
        (ceilDivInt (wrap numel) defaultBlockSize).toNat*defaultBlockSize := by
      rw [toSize_eq hpos.le hrange.2,hsize,hgrid,show defaultBlockSize=256 from rfl]
      omega
    rw [launch_ok hr (by rw [hsize,hgrid]; omega) (by rw [hsize,hgrid]; omega) (by decide)
      (by decide),covered_ok_iff (elementKernel_places value hcover),wrap_numel_iff hpos,
      or_iff_left hover]

/-- The launcher of such a kernel. -/
theorem launchElements_covered_iff (hr : r.Documented) (hn : 1≤numel) (value : ℕ → K) :
    Covered numel (launchElements r value (wrap numel)) ↔
      numel < 2147483648 ∨ 2147483392 < wrap (numel : ℤ) := by
  rw [launchElements]
  split
  · next hle =>
    rw [covered_none hn hle]
    exact (or_iff_left (by omega)).symm
  · next hpos => exact elementLaunch_covered_iff hr value (not_le.mp hpos)

/-- A launch with four elements for each thread covers the tensor, unless the
conversion came back in range. -/
theorem vectorLaunch_covered_iff (hr : r.Documented) (value : ℕ → K)
    (hpos : 0<wrap (numel : ℤ)) (hfour : (wrap (numel : ℤ)).tmod 4=0) :
    Covered numel (launch r (ceilDivInt ((wrap (numel : ℤ)).tdiv 4) defaultBlockSize)
      defaultBlockSize (swigluVectorised value ((wrap (numel : ℤ)).tdiv 4))) ↔
        numel < 2147483648 := by
  have hrange := wrap_range (numel : ℤ)
  have hsize : (defaultBlockSize : ℤ)=256 := rfl
  rw [Int.tmod_eq_emod_of_nonneg hpos.le] at hfour
  rw [Int.tdiv_eq_ediv_of_nonneg hpos.le]
  have hvec : 0<wrap (numel : ℤ)/4 := by omega
  have hgrid := @ceilDivInt_fits (wrap numel/4) defaultBlockSize hvec (by omega) (by omega)
  rw [hsize] at hgrid
  have htosize := @toSize_eq (wrap numel/4) hvec.le (by omega)
  have hcover : toSize (wrap numel/4) ≤
      (ceilDivInt (wrap numel/4) defaultBlockSize).toNat*defaultBlockSize := by
    rw [htosize,hsize,hgrid,show defaultBlockSize=256 from rfl]
    omega
  have hall : toSize (wrap numel/4)*4=toSize (wrap numel) := by
    rw [htosize,toSize_eq hpos.le hrange.2]
    omega
  rw [launch_ok hr (by rw [hsize,hgrid]; omega) (by rw [hsize,hgrid]; omega) (by decide)
    (by decide),covered_ok_iff (swigluVectorised_places value hcover),hall,wrap_numel_iff hpos]

variable [Mul K]

/-- Whichever kernel `launch_swiglu` launches. -/
theorem launchSwiglu_covered_iff (hr : r.Documented) (hn : 1≤numel) (silu : K → K)
    (gate up : ℕ → K) (gateAddress upAddress outputAddress : ℕ) :
    Covered numel (launchSwiglu r silu gate up gateAddress upAddress outputAddress (wrap numel)
      .vectorised) ↔ numel < 2147483648 ∨ 2147483392 < wrap (numel : ℤ) ∧
        ¬vectorisable gateAddress upAddress outputAddress (wrap numel)=true := by
  rw [launchSwiglu]
  split
  · next hle =>
    rw [covered_none hn hle]
    exact (or_iff_left (by omega)).symm
  · next hpos =>
    split
    · next hvec =>
      have hfour : (wrap (numel : ℤ)).tmod 4=0 := by
        have h := hvec.2
        rw [vectorisable,Bool.and_eq_true,Bool.and_eq_true,Bool.and_eq_true] at h
        exact of_decide_eq_true h.1.1.1
      rw [vectorLaunch_covered_iff hr _ (not_le.mp hpos) hfour]
      exact (or_iff_left (fun h => h.2 hvec.2)).symm
    · next hscalar =>
      have hnot : ¬vectorisable gateAddress upAddress outputAddress (wrap numel)=true :=
        fun h => hscalar ⟨rfl,h⟩
      rw [elementLaunch_covered_iff hr _ (not_le.mp hpos),and_iff_left hnot]

end Coverage

section Calls

variable {K : Type} {r : Runtime}

/-- A step that succeeds. -/
theorem ok_bind {α β : Type} (a : α) (f : α → Except Failure β) :
    (Except.ok a >>= f)=f a :=
  rfl

/-- What a step that was followed by others has returned. -/
theorem bind_ok {α β : Type} {x : Except Failure α} {f : α → Except Failure β} {b : β}
    (h : (x >>= f)=.ok b) : ∃ a, x=.ok a ∧ f a=.ok b := by
  cases x with
  | error failure => cases h
  | ok a => exact ⟨a,rfl,h⟩

/-- A check that has succeeded. -/
theorem of_guard_ok {c : Prop} [Decidable c] {failure : Failure} {u : Unit}
    (h : (if c then .ok () else .error failure : Except Failure Unit)=.ok u) : c := by
  by_contra hn
  rw [if_neg hn] at h
  cases h

/-- A tensor that the operators accept: float32, contiguous and not empty. -/
structure Accepted (tensor : Tensor K) : Prop where
  /-- Its elements are floats. -/
  float32 : tensor.scalarType=.float32
  /-- They lie one behind another. -/
  contiguous : tensor.contiguous=true
  /-- There is one. -/
  positive : 1≤tensor.numel

/-- Its checks pass. -/
theorem Accepted.checks {tensor : Tensor K} (h : Accepted tensor) (name : String) :
    checkFloat32 tensor name=.ok () ∧ checkLastDimContiguous tensor name=.ok () :=
  ⟨if_pos h.float32,if_pos h.contiguous⟩

/-- `silu_cuda` launches. -/
theorem siluCuda_eq {input : Tensor K} (h : Accepted input) (silu : K → K) :
    siluCuda r silu input=
      launchElements r (fun index => silu (input.data index)) (wrap input.numel) := by
  obtain ⟨hfloat,hcontiguous⟩ := h.checks "input"
  rw [siluCuda,hfloat,hcontiguous,ok_bind,ok_bind,launchSilu]

/-- `gelu_cuda` launches. -/
theorem geluCuda_eq {input : Tensor K} (h : Accepted input) (geluTanh : K → K) :
    geluCuda r geluTanh input=
      launchElements r (fun index => geluTanh (input.data index)) (wrap input.numel) := by
  obtain ⟨hfloat,hcontiguous⟩ := h.checks "input"
  rw [geluCuda,hfloat,hcontiguous,ok_bind,ok_bind,launchGelu]

/-- `swiglu_cuda` launches. -/
theorem swigluCuda_eq [Mul K] {gate up : Tensor K} (hg : Accepted gate) (hu : Accepted up)
    (hs : gate.sizes=up.sizes) (silu : K → K) (outputAddress : ℕ) :
    swigluCuda r silu outputAddress gate up=launchSwiglu r silu gate.data up.data gate.address
      up.address outputAddress (wrap gate.numel) .vectorised := by
  obtain ⟨hgf,hgc⟩ := hg.checks "gate"
  obtain ⟨huf,huc⟩ := hu.checks "up"
  rw [swigluCuda,hgf,huf,hgc,huc]
  exact if_neg (not_not_intro hs)

/-- What `quantize_int8_cuda` returns, it has launched; its tensors have sizes and
its view as many elements as the input. -/
theorem quantizeInt8Cuda_ok {input : Tensor ℚ} {shared : ℕ → ℕ → ℚ}
    {stored : List (List (ℕ×ℤ)×List (ℕ×ℚ))} (hr : r.Documented)
    (h : quantizeInt8Cuda r shared input=.ok stored) :
    wrap input.numel=input.numel ∧ 0 ≤ quantScaleCount (wrap input.numel) ∧
      launchQuantizeInt8Int r shared input.data (wrap input.numel)=.ok stored := by
  rw [quantizeInt8Cuda] at h
  obtain ⟨_,_,h⟩ := bind_ok h
  obtain ⟨_,_,h⟩ := bind_ok h
  obtain ⟨_,hcount,h⟩ := bind_ok h
  obtain ⟨_,hscales,h⟩ := bind_ok h
  obtain ⟨other,hlaunch,h⟩ := bind_ok h
  obtain ⟨_,hview,h⟩ := bind_ok h
  obtain rfl := Except.ok.inj h
  exact ⟨hr.view _ _ (of_guard_ok hview),hr.empty _ (of_guard_ok hscales),hlaunch⟩

/-- What a thread of `quantize_int8` stores to the output. -/
theorem quantizeInt8_places (input : ℕ → ℚ) (count : ℕ) (shared : ℕ → ℚ) (block thread : ℕ) :
    (quantizeInt8 input count shared block thread).1.map Prod.fst=
      if block*quantBlockSize+thread<count then [block*quantBlockSize+thread] else [] := by
  rw [quantizeInt8]
  dsimp only
  split <;> rfl

/-- Every call of `quantize_int8_cuda` covers its tensor, or reports an error. -/
theorem quantizeInt8Cuda_covered (hr : r.Documented) {input : Tensor ℚ} (hi : Accepted input)
    (shared : ℕ → ℕ → ℚ) {stored : List (List (ℕ×ℤ)×List (ℕ×ℚ))}
    (h : quantizeInt8Cuda r shared input=.ok stored) :
    ((stored.flatMap Prod.fst).map Prod.fst).Perm (List.range input.numel) := by
  obtain ⟨hcount,hscales,hlaunch⟩ := quantizeInt8Cuda_ok hr h
  have hrange := wrap_range (input.numel : ℤ)
  have hpos := hi.positive
  have hsize : (quantBlockSize : ℤ)=64 := rfl
  rw [launchQuantizeInt8Int,if_neg (by omega)] at hlaunch
  rw [quantScaleCount,if_neg (by omega)] at hscales hlaunch
  have hfits : wrap (input.numel : ℤ)+quantBlockSize-1 < 2147483648 := by
    by_contra hover
    have hneg := (ceilDivInt_over hrange.2 (by omega) (by omega) (not_lt.mp hover)).1
    omega
  have hgrid := ceilDivInt_fits (by omega) (by omega) hfits
  rw [hsize] at hgrid
  rw [launch_ok hr (by rw [hsize,hgrid]; omega) (by rw [hsize,hgrid]; omega) (by decide)
    (by decide)] at hlaunch
  obtain rfl := Except.ok.inj hlaunch
  have hnumel : toSize (wrap input.numel)=input.numel := by
    rw [toSize_eq (by omega) hrange.2,hcount,Int.toNat_natCast]
  have hcover : input.numel ≤
      (ceilDivInt (wrap input.numel) quantBlockSize).toNat*quantBlockSize := by
    rw [hsize,hgrid,hcount,show quantBlockSize=64 from rfl]
    omega
  rw [hnumel]
  refine List.Perm.of_eq ?_
  rw [←flatMap_guarded hcover,
    ←RowMajor.flatMap_rows (fun i => if i < input.numel then [i] else [])]
  simp only [List.flatMap_assoc,List.map_flatMap,List.flatMap_singleton,quantizeInt8_places]

/-- Exactly when a call that returns has stored to every place once and to no other:
`silu_cuda` and `gelu_cuda` when the number of elements fits an `int`, or the converted
count cannot be rounded up and the launch is refused; `swiglu_cuda` when, besides,
the scalar kernel is launched in the latter case; `quantize_int8_cuda` always. -/
theorem elementwise_covered_iff [Mul K] (hr : r.Documented) (silu geluTanh : K → K)
    (outputAddress : ℕ) (shared : ℕ → ℕ → ℚ) {input gate up : Tensor K} {flat : Tensor ℚ}
    (hi : Accepted input) (hg : Accepted gate) (hu : Accepted up) (hs : gate.sizes=up.sizes)
    (hf : Accepted flat) :
    (Covered input.numel (siluCuda r silu input) ↔
      input.numel < 2147483648 ∨ 2147483392 < wrap (input.numel : ℤ)) ∧
    (Covered input.numel (geluCuda r geluTanh input) ↔
      input.numel < 2147483648 ∨ 2147483392 < wrap (input.numel : ℤ)) ∧
    (Covered gate.numel (swigluCuda r silu outputAddress gate up) ↔
      gate.numel < 2147483648 ∨ 2147483392 < wrap (gate.numel : ℤ) ∧
        ¬vectorisable gate.address up.address outputAddress (wrap gate.numel)=true) ∧
    ∀ stored, quantizeInt8Cuda r shared flat=.ok stored →
      ((stored.flatMap Prod.fst).map Prod.fst).Perm (List.range flat.numel) := by
  rw [siluCuda_eq hi,geluCuda_eq hi,swigluCuda_eq hg hu hs]
  exact ⟨launchElements_covered_iff hr hi.positive _,launchElements_covered_iff hr hi.positive _,
    launchSwiglu_covered_iff hr hg.positive silu gate.data up.data gate.address up.address
      outputAddress,fun _ h => quantizeInt8Cuda_covered hr hf shared h⟩

/-- A runtime that accepts what it may. -/
def permissive : Runtime where
  empty size := 0 ≤ size
  view size sizes := size=sizes.prod
  launches grid block := 1≤grid ∧ grid < 2147483648 ∧ 1≤block ∧ block≤1024

/-- It is as documented. -/
theorem permissive_documented : permissive.Documented :=
  ⟨fun _ h => of_decide_eq_true h,fun _ _ h => of_decide_eq_true h,
    fun _ _ => decide_eq_true_iff⟩

/-- A tensor of so many rows of a thousand and twenty-four floats. -/
def rowsOf (rows : ℕ) : Tensor ℚ := ⟨[rows,1024],.float32,true,256,fun _ => 1⟩

/-- The operators accept it, unless it is empty. -/
theorem rowsOf_accepted {rows : ℕ} (h : 1≤rows) : Accepted (rowsOf rows) := by
  refine ⟨rfl,rfl,?_⟩
  rw [rowsOf,Tensor.numel,List.prod_cons,List.prod_singleton]
  omega

/-- Tensors of a hundred rows are covered. -/
theorem elementwise_covered_rows :
    Covered (rowsOf 100).numel (siluCuda permissive (fun x => x/2) (rowsOf 100)) ∧
      Covered (rowsOf 100).numel
        (swigluCuda permissive (fun x => x/2) 4096 (rowsOf 100) (rowsOf 100)) := by
  have ha : Accepted (rowsOf 100) := rowsOf_accepted (by decide)
  have hn : (rowsOf 100).numel < 2147483648 := by decide
  have h := elementwise_covered_iff permissive_documented (fun x => x/2) (fun x => x) 4096
    (fun _ _ => 0) ha ha ha rfl ha
  exact ⟨h.1.mpr (Or.inl hn),h.2.2.1.mpr (Or.inl hn)⟩

/-- A tensor of 2^31 floats: the call returns, and nothing has been stored. -/
theorem silu_uncovered : siluCuda permissive (fun x => x/2) (rowsOf 2097152)=.ok [] ∧
    ¬Covered (rowsOf 2097152).numel (siluCuda permissive (fun x => x/2) (rowsOf 2097152)) := by
  have hn : (rowsOf 2097152).numel=2147483648 := by decide
  have hcall : siluCuda permissive (fun x => x/2) (rowsOf 2097152)=.ok [] := by
    rw [siluCuda_eq (rowsOf_accepted (by decide)),launchElements,hn]
    exact if_pos (by decide)
  refine ⟨hcall,fun hc => ?_⟩
  have hlength := (hc [] hcall).length_eq
  rw [hn,List.length_range,List.map_nil,List.length_nil] at hlength
  omega

end Calls

end CudaForge.ElementwiseLaunches
