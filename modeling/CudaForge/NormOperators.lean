import CudaForge.NormKernels
import CudaForge.OperatorDispatch

/-!
# The normalisation operators

`rmsnorm` and `fused_residual_rmsnorm` of `cudaforge.ops` from the call down to the
kernels: argument checks, contiguous copies, the choice of an implementation, the
implementations for the CPU and the GPU with their own checks, and the launches.
-/

namespace CudaForge.NormOperators

open ElementwiseLaunches (ScalarType)
open NormKernels OperatorDispatch SoftmaxKernels StridedTensors WrappedIntegers

section Norms

variable {K : Type} [Field K] (t : Torch K) (s : Session) (gpu : Gpu K)

/-- `_rmsnorm_reference`, over the last dimension. -/
def rmsnormPython (x weight : Tensor K) (eps : K) : Answer K :=
  answered x.sizes x.dtype (rmsnormReference t.rsqrt (t.round .float32) (t.round x.dtype)
    (x.sizes.getLastD 1) eps x.element weight.element)

/-- `rmsnorm_cpu`. -/
def rmsnormCpu (input weight : Tensor K) (eps : K) : Except Raised (List (Answer K)) := do
  check2d input "input"
  check (decide (weight.size 0=input.size 1)) ("weight length "++toString (weight.size 0)++
    " does not match the input's last dimension "++toString (input.size 1))
  return [rmsnormPython t input weight eps]

/-- `rmsnorm_cuda`. -/
def rmsnormCuda (input weight : Tensor K) (eps : K) : Except Raised (List (Answer K)) := do
  check2d input "input"
  checkFloat32 input "input"
  checkFloat32 weight "weight"
  checkLastDimContiguous input "input"
  checkLastDimContiguous weight "weight"
  check (decide (weight.ndim=1)) ("weight must be 1-D, got "++toString weight.ndim++" dimensions")
  check (decide (weight.size 0=input.size 1)) ("weight length "++toString (weight.size 0)++
    " does not match the input's last dimension "++toString (input.size 1))
  let rows := wrap (input.size 0)
  let cols := wrap (input.size 1)
  let output ← launched (launchRmsnorm t.rsqrt
    ⟨input.address,weight.address,gpu.address 0⟩ .vectorised rows cols eps (gpu.schedule _ _)
    gpu.scratch input.storage weight.storage gpu.memory)
  return [answered input.sizes .float32 output]

/-- What `rmsnorm` checks. -/
def rmsnormArguments (x weight : Tensor K) : Except Raised Unit := do
  if weight.ndim≠1 then
    throw (.valueError ("weight must be 1-D, got shape "++tupleText weight.sizes))
  let last ← x.lastSize
  if last≠weight.size 0 then
    throw (.valueError ("weight length "++toString (weight.size 0)++
      " does not match the last dimension of x, which is "++toString last))

/-- `rmsnorm`. -/
def rmsnorm (x weight : Tensor K) (eps : K) : Except Raised (Result K) :=
  let input := x.contiguous s (gpu.address 1)
  let gains := weight.contiguous s (gpu.address 2)
  operator s "rmsnorm" (rmsnormArguments x weight)
    (if x.numel=0 then some [x.answer] else none)
    input.floatMatrix [input,gains]
    (rmsnormCpu t input gains eps) (rmsnormCuda t gpu input gains eps)
    (.ok [rmsnormPython t input gains eps])

/-- `x + residual`. -/
def summed (x residual : Tensor K) : Tensor K where
  sizes := x.sizes
  strides := denseStrides x.sizes
  ranked := denseStrides_length x.sizes
  storage place := t.round (t.promote x.dtype residual.dtype)
    (x.element place+residual.element place)
  dtype := t.promote x.dtype residual.dtype
  cuda := x.cuda
  requiresGrad := needsAutograd s [x,residual]
  address := gpu.address 3

/-- `_fused_residual_rmsnorm_reference`. -/
def fusedResidualRmsnormPython (x residual weight : Tensor K) (eps : K) : List (Answer K) :=
  let sum := summed t s gpu x residual
  [rmsnormPython t sum weight eps,sum.answer]

/-- `fused_residual_rmsnorm_cpu`. -/
def fusedResidualRmsnormCpu (x residual weight : Tensor K) (eps : K) :
    Except Raised (List (Answer K)) := do
  check (decide (x.sizes=residual.sizes)) ("x and residual must have the same shape, got "++
    sizesText x.sizes++" and "++sizesText residual.sizes)
  let sum := summed t s gpu x residual
  let normalised ← rmsnormCpu t sum weight eps
  return normalised++[sum.answer]

/-- `fused_residual_rmsnorm_cuda`. -/
def fusedResidualRmsnormCuda (x residual weight : Tensor K) (eps : K) :
    Except Raised (List (Answer K)) := do
  check2d x "x"
  checkFloat32 x "x"
  checkFloat32 residual "residual"
  checkFloat32 weight "weight"
  checkLastDimContiguous x "x"
  checkLastDimContiguous residual "residual"
  checkLastDimContiguous weight "weight"
  check (decide (x.sizes=residual.sizes)) ("x and residual must have the same shape, got "++
    sizesText x.sizes++" and "++sizesText residual.sizes)
  check (decide (weight.ndim=1) && decide (weight.size 0=x.size 1))
    ("weight must be 1-D of length "++toString (x.size 1)++", got "++sizesText weight.sizes)
  let rows := wrap (x.size 0)
  let cols := wrap (x.size 1)
  let buffers ← launched (launchFusedResidualRmsnorm t.rsqrt rows cols eps (gpu.schedule _ _)
    gpu.scratch x.storage (some residual.storage) weight.storage ⟨gpu.memory,gpu.memory⟩)
  return [answered x.sizes .float32 buffers.output,answered x.sizes .float32 buffers.residualOut]

/-- What `fused_residual_rmsnorm` checks. -/
def fusedResidualRmsnormArguments (x residual weight : Tensor K) : Except Raised Unit := do
  if x.sizes≠residual.sizes then
    throw (.valueError ("x and residual must have the same shape, got "++tupleText x.sizes++
      " and "++tupleText residual.sizes))
  -- the length is read for the comparison or else for the message
  let last ← x.lastSize
  if weight.ndim≠1 ∨ weight.size 0≠last then
    throw (.valueError ("weight must be 1-D of length "++toString last++", got "++
      tupleText weight.sizes))

/-- `fused_residual_rmsnorm`. -/
def fusedResidualRmsnorm (x residual weight : Tensor K) (eps : K) : Except Raised (Result K) :=
  let input := x.contiguous s (gpu.address 1)
  let skip := residual.contiguous s (gpu.address 2)
  let gains := weight.contiguous s (gpu.address 4)
  operator s "fused_residual_rmsnorm" (fusedResidualRmsnormArguments x residual weight)
    (if x.numel=0 then some [x.answer,residual.answer] else none)
    input.floatMatrix [input,skip,gains]
    (fusedResidualRmsnormCpu t s gpu input skip gains eps)
    (fusedResidualRmsnormCuda t gpu input skip gains eps)
    (.ok (fusedResidualRmsnormPython t s gpu input skip gains eps))

end Norms

section Arguments

variable {K : Type} {x residual weight : Tensor K}

/-- What `rmsnorm` accepts. -/
theorem rmsnormArguments_ok (h : rmsnormArguments x weight=.ok ()) :
    weight.ndim=1 ∧ x.sizes.getLast?=some (weight.size 0) := by
  rw [rmsnormArguments,Tensor.lastSize] at h
  by_cases hn : weight.ndim≠1
  · rw [if_pos hn] at h
    cases h
  · rw [if_neg hn] at h
    cases hl : x.sizes.getLast? with
    | none =>
      rw [hl] at h
      cases h
    | some last =>
      rw [hl] at h
      change (if last≠weight.size 0 then _ else _)=_ at h
      by_cases hne : last≠weight.size 0
      · rw [if_pos hne] at h
        cases h
      · exact ⟨not_not.mp hn,congrArg some (not_not.mp hne)⟩

/-- What `fused_residual_rmsnorm` accepts. -/
theorem fusedResidualRmsnormArguments_ok
    (h : fusedResidualRmsnormArguments x residual weight=.ok ()) :
    x.sizes=residual.sizes ∧ weight.ndim=1 ∧ x.sizes.getLast?=some (weight.size 0) := by
  rw [fusedResidualRmsnormArguments,Tensor.lastSize] at h
  by_cases hs : x.sizes≠residual.sizes
  · rw [if_pos hs] at h
    cases h
  · rw [if_neg hs] at h
    cases hl : x.sizes.getLast? with
    | none =>
      rw [hl] at h
      cases h
    | some last =>
      rw [hl] at h
      change (if weight.ndim≠1 ∨ weight.size 0≠last then _ else _)=_ at h
      by_cases hne : weight.ndim≠1 ∨ weight.size 0≠last
      · rw [if_pos hne] at h
        cases h
      · obtain ⟨hn,he⟩ := not_or.mp hne
        exact ⟨not_not.mp hs,not_not.mp hn,congrArg some (not_not.mp he).symm⟩

end Arguments

section NormBindings

variable {K : Type} [Field K] {t : Torch K} {s : Session} {gpu : Gpu K}
variable {x residual weight : Tensor K}
  {eps : K}

/-- The reference reads the row of a place and the gains. -/
theorem rmsnormReference_congr {rsqrt : K → K} {toFloat fromFloat : K → K} {rows cols : ℕ}
    {values others gains others' : ℕ → K} (hv : ∀ place < rows*cols, values place=others place)
    (hg : ∀ col < cols, gains col=others' col) {place : ℕ} (hp : place < rows*cols) :
    rmsnormReference rsqrt toFloat fromFloat cols eps values gains place=
      rmsnormReference rsqrt toFloat fromFloat cols eps others others' place := by
  have hcols : 0<cols := Nat.pos_of_mul_pos_left (Nat.zero_lt_of_lt hp)
  have hrow : place/cols<rows := Nat.div_lt_of_lt_mul (by rwa [Nat.mul_comm])
  have hsum : ∑ col ∈ Finset.range cols,toFloat (values (place/cols*cols+col))*
      toFloat (values (place/cols*cols+col))=∑ col ∈ Finset.range cols,
        toFloat (others (place/cols*cols+col))*toFloat (others (place/cols*cols+col)) :=
    Finset.sum_congr rfl fun col hm => by
      rw [hv _ (RowMajor.place_lt hrow (Finset.mem_range.mp hm))]
  simp only [rmsnormReference,hv place hp,hg _ (Nat.mod_lt place hcols),hsum]

/-- `rmsnorm_cpu` repeats the reference. -/
theorem rmsnormCpu_eq (h : x.ndim=2) (hg : weight.size 0=x.size 1) :
    rmsnormCpu t x weight eps=.ok [rmsnormPython t x weight eps] := by
  rw [rmsnormCpu,check2d_ok h,check_ok (decide_eq_true hg)]
  rfl

/-- The reference over a matrix of floats. -/
theorem rmsnormPython_float32 (ht : t.Exact) (h : x.ndim=2) (hf : x.dtype=.float32) :
    rmsnormPython t x weight eps=answered x.sizes .float32
      (rmsnormReference t.rsqrt id id (x.size 1) eps x.element weight.element) := by
  have hround : t.round .float32=id := funext ht.round_float32
  rw [rmsnormPython,hf,hround]
  have hlast : x.sizes.getLastD 1=x.size 1 := by
    rw [sizes_two h]
    rfl
  rw [hlast]

omit [Field K] in
/-- The rows of a matrix whose sizes fit leave room. -/
theorem leavesRoom_wrap (h : x.ndim=2) (hfit : SizesFit x) : LeavesRoom (wrap (x.size 1)) := by
  obtain ⟨_,hcols,hroom⟩ := wrap_sizes h hfit
  rw [LeavesRoom,hcols]
  omega

/-- `rmsnorm_cuda` computes the reference, or refuses the gains. -/
theorem rmsnormCuda_eq (ht : t.Exact) (hx : x.isContiguous=true) (hw : weight.isContiguous=true)
    (h : x.ndim=2) (hf : x.dtype=.float32) (hn : weight.ndim=1) (hg : weight.size 0=x.size 1)
    (hfit : SizesFit x) :
    rmsnormCuda t gpu x weight eps=if weight.dtype≠.float32 then
      .error (.runtimeError ("weight must be float32, got "++typeText weight.dtype))
    else .ok [rmsnormPython t x weight eps] := by
  rw [rmsnormCuda,check2d_ok h,ok_bind,checkFloat32_ok hf,ok_bind,checkFloat32_eq]
  by_cases hd : weight.dtype≠.float32
  · rw [if_pos hd,if_pos hd]
    rfl
  · rw [if_neg hd,if_neg hd,ok_bind,checkLastDimContiguous_ok hx,ok_bind,
      checkLastDimContiguous_ok hw,ok_bind,check_ok (decide_eq_true hn),ok_bind,
      check_ok (decide_eq_true hg),ok_bind,rmsnormPython_float32 ht h hf]
    obtain ⟨hrows,hcols,_⟩ := wrap_sizes h hfit
    have hnumel := numel_matrix h
    have hgains := (numel_vector hn).trans hg
    simp only
    rw [launchRmsnorm_eq t.rsqrt _ _ _ _ (leavesRoom_wrap h hfit),launched,ok_bind]
    refine congrArg (fun answer => Except.ok [answer]) (answered_congr fun place hp => ?_)
    rw [hrows,hcols,Int.toNat_natCast,Int.toNat_natCast,if_pos (hnumel ▸ hp)]
    exact rmsnormReference_congr
      (fun place hp => storage_eq hx (by rw [Strided.numel,hnumel]; exact hp))
      (fun col hc => storage_eq hw (by rw [Strided.numel,hgains]; exact hc)) (hnumel ▸ hp)

/-- The sum lies element behind element. -/
theorem summed_element {place : ℕ} (hp : place < x.numel) :
    (summed t s gpu x residual).element place=
      t.round (t.promote x.dtype residual.dtype) (x.element place+residual.element place) := by
  have hc : (summed t s gpu x residual).isContiguous=true := by
    rw [Strided.isContiguous,summed,rowMajor_denseStrides,Bool.or_true]
  exact Strided.element_contiguous hc hp

/-- `fused_residual_rmsnorm_cpu` repeats the reference. -/
theorem fusedResidualRmsnormCpu_eq (h : x.ndim=2) (hs : x.sizes=residual.sizes)
    (hg : weight.size 0=x.size 1) :
    fusedResidualRmsnormCpu t s gpu x residual weight eps=
      .ok (fusedResidualRmsnormPython t s gpu x residual weight eps) := by
  rw [fusedResidualRmsnormCpu,check_ok (decide_eq_true hs)]
  change (rmsnormCpu t (summed t s gpu x residual) weight eps >>= fun normalised => _)=_
  rw [rmsnormCpu_eq (x := summed t s gpu x residual) h hg]
  rfl

/-- `fused_residual_rmsnorm_cuda` computes the reference, or refuses a tensor. -/
theorem fusedResidualRmsnormCuda_eq (ht : t.Exact) (hx : x.isContiguous=true)
    (hr : residual.isContiguous=true) (hw : weight.isContiguous=true) (h : x.ndim=2)
    (hf : x.dtype=.float32) (hs : x.sizes=residual.sizes) (hn : weight.ndim=1)
    (hg : weight.size 0=x.size 1) (hfit : SizesFit x) :
    fusedResidualRmsnormCuda t gpu x residual weight eps=
      if residual.dtype≠.float32 ∨ weight.dtype≠.float32 then
        .error (.runtimeError (if residual.dtype≠.float32 then
          "residual must be float32, got "++typeText residual.dtype
        else "weight must be float32, got "++typeText weight.dtype))
      else .ok (fusedResidualRmsnormPython t s gpu x residual weight eps) := by
  rw [fusedResidualRmsnormCuda,check2d_ok h,ok_bind,checkFloat32_ok hf,ok_bind,checkFloat32_eq,
    checkFloat32_eq]
  by_cases hd : residual.dtype≠.float32
  · rw [if_pos hd,if_pos (Or.inl hd),if_pos hd]
    rfl
  rw [if_neg hd,ok_bind]
  by_cases hd' : weight.dtype≠.float32
  · rw [if_pos hd',if_pos (Or.inr hd'),if_neg hd]
    rfl
  · have hsum : (summed t s gpu x residual).dtype=.float32 := by
      rw [summed,hf,not_not.mp hd,ht.promote_float32]
    rw [if_neg hd',if_neg (not_or.mpr ⟨hd,hd'⟩),ok_bind,checkLastDimContiguous_ok hx,ok_bind,
      checkLastDimContiguous_ok hr,ok_bind,checkLastDimContiguous_ok hw,ok_bind,
      check_ok (decide_eq_true hs),ok_bind,
      check_ok (Bool.and_eq_true_iff.mpr ⟨decide_eq_true hn,decide_eq_true hg⟩),ok_bind,
      fusedResidualRmsnormPython]
    simp only
    rw [rmsnormPython_float32 ht (x := summed t s gpu x residual) h hsum]
    obtain ⟨hrows,hcols,_⟩ := wrap_sizes h hfit
    have hnumel := numel_matrix h
    have hgains := (numel_vector hn).trans hg
    have hplace : ∀ place < x.size 0*x.size 1, x.storage place+residual.storage place=
        (summed t s gpu x residual).element place := by
      intro place hp
      rw [summed_element (by rw [Strided.numel,hnumel]; exact hp),hf,not_not.mp hd,
        ht.promote_float32,ht.round_float32,
        storage_eq hx (by rw [Strided.numel,hnumel]; exact hp),
        storage_eq hr (by rw [Strided.numel,←hs,hnumel]; exact hp)]
    rw [launchFusedResidualRmsnorm_eq t.rsqrt _ _ (leavesRoom_wrap h hfit),launched,ok_bind]
    refine congrArg₂ (fun normalised sums => Except.ok [normalised,sums]) ?_ ?_
    · refine answered_congr fun place hp => ?_
      rw [hrows,hcols,Int.toNat_natCast,Int.toNat_natCast]
      simp only
      rw [if_pos (hnumel ▸ hp)]
      exact rmsnormReference_congr hplace
        (fun col hc => storage_eq hw (by rw [Strided.numel,hgains]; exact hc)) (hnumel ▸ hp)
    · rw [Tensor.answer,hsum]
      refine answered_congr fun place hp => ?_
      rw [hrows,hcols,Int.toNat_natCast,Int.toNat_natCast]
      simp only
      rw [if_pos (hnumel ▸ hp)]
      exact hplace place (hnumel ▸ hp)

end NormBindings

section Norms

variable {K : Type} [Field K] {t : Torch K} {s : Session} {gpu : Gpu K}
  {x residual weight : Tensor K} {eps : K}

/-- Contiguous copies have the same reference. -/
theorem rmsnormPython_congr {other gains : Tensor K} (hs : other.sizes=x.sizes)
    (hd : other.dtype=x.dtype) (hn : weight.ndim=1) (hl : x.sizes.getLast?=some (weight.size 0))
    (hx : ∀ place < x.numel, other.element place=x.element place)
    (hw : ∀ place < weight.numel, gains.element place=weight.element place) :
    rmsnormPython t other gains eps=rmsnormPython t x weight eps := by
  have hlast : x.sizes.getLastD 1=weight.size 0 := by
    rw [List.getLastD_eq_getLast?,hl,Option.getD_some]
  have hnumel : x.numel=x.sizes.dropLast.prod*weight.size 0 := by
    have hsplit := congrArg List.prod (List.dropLast_append_getLast? _ hl)
    rw [List.prod_append,List.prod_singleton] at hsplit
    exact hsplit.symm
  have hgains : weight.numel=weight.size 0 := numel_vector hn
  rw [rmsnormPython,rmsnormPython,hs,hd,hlast]
  refine answered_congr fun place hp => ?_
  rw [Strided.numel] at hnumel
  exact rmsnormReference_congr
    (fun place hp => hx place (by rw [Strided.numel,hnumel]; exact hp))
    (fun col hc => hw col (by rw [hgains]; exact hc)) (hnumel ▸ hp)

/-- Gains of one. -/
def unitGains (length : ℕ) : Tensor ℚ :=
  ⟨⟨[length],[1],rfl,fun _ => 1⟩,.float32,true,false,0⟩

end Norms

end CudaForge.NormOperators
