import CudaForge.ElementwiseLaunches
import CudaForge.SoftmaxKernels
import CudaForge.StridedTensors

/-!
# The operators and their implementations

What the operators of `cudaforge.ops` do with a call: they check shapes, make their
tensors contiguous, and hand them to the compiled extension or to the reference in
Python. The extension may be missing, fail to load, or come without CUDA; its own
implementation for the CPU repeats the reference, the one for the GPU checks its
tensors once more and launches a kernel. Arithmetic in float32 is exact here.
-/

namespace CudaForge.OperatorDispatch

open ElementwiseLaunches (ScalarType Failure)
open SoftmaxKernels StridedTensors WrappedIntegers

/-- What `_load_extension` finds. -/
inductive Extension where
  /-- No extension has been built. -/
  | missing
  /-- Its import fails. -/
  | broken (error : String)
  /-- It was compiled without CUDA. -/
  | cpuOnly
  /-- It has CUDA kernels. -/
  | withCuda

/-- `_EXTENSION_LOADED`. -/
def Extension.loaded : Extension → Bool
  | .missing => false
  | .broken _ => false
  | .cpuOnly => true
  | .withCuda => true

/-- `_CUDA_COMPILED`. -/
def Extension.cudaCompiled : Extension → Bool
  | .missing => false
  | .broken _ => false
  | .cpuOnly => false
  | .withCuda => true

/-- What a call finds around it. -/
structure Session where
  /-- The extension. -/
  extension : Extension
  /-- `torch.is_grad_enabled`. -/
  gradEnabled : Bool

/-- A tensor. -/
structure Tensor (K : Type) extends Strided K where
  /-- What its elements are. -/
  dtype : ScalarType
  /-- `is_cuda`. -/
  cuda : Bool
  /-- `requires_grad`. -/
  requiresGrad : Bool
  /-- Where its data begins. -/
  address : ℕ

/-- What a call returns of a tensor: its elements, in row-major order. -/
structure Answer (K : Type) where
  /-- Its shape. -/
  sizes : List ℕ
  /-- What its elements are. -/
  dtype : ScalarType
  /-- Its elements. -/
  values : List K

/-- The implementation that has answered. -/
inductive Path where
  /-- An empty input is cloned. -/
  | clone
  /-- The composition of ATen operators in `ops.py`. -/
  | reference
  /-- The operator of the extension. -/
  | extension
  deriving DecidableEq

/-- What a call returns. -/
structure Result (K : Type) where
  /-- Who has computed it. -/
  path : Path
  /-- The tensors. -/
  tensors : List (Answer K)

/-- What a call raises. -/
inductive Raised where
  /-- `IndexError`. -/
  | indexError (text : String)
  /-- `ValueError`. -/
  | valueError (text : String)
  /-- `RuntimeError`, of a check of the extension or of torch. -/
  | runtimeError (text : String)
  /-- The operator has no implementation for the device. -/
  | notImplemented (name : String)
  /-- Nothing: the behaviour of a kernel is undefined, because a counter overflows. -/
  | undefined
  deriving DecidableEq

section Texts

/-- The numbers of a shape with commas between them. -/
def commas (sizes : List ℕ) : String := String.intercalate ", " (sizes.map toString)

/-- A shape as a tuple of Python. -/
def tupleText : List ℕ → String
  | [size] => "("++toString size++",)"
  | sizes => "("++commas sizes++")"

/-- A shape as torch prints it. -/
def sizesText (sizes : List ℕ) : String := "["++commas sizes++"]"

/-- A scalar type as torch prints it. -/
def typeText : ScalarType → String
  | .uint8 => "Byte"
  | .int8 => "Char"
  | .int16 => "Short"
  | .int32 => "Int"
  | .int64 => "Long"
  | .half => "Half"
  | .bfloat16 => "BFloat16"
  | .float32 => "Float"
  | .float64 => "Double"
  | .bool => "Bool"

/-- The error of a check, as its text. -/
def failureText : Failure → String
  | .notContiguous name => name++" must be contiguous; call .contiguous() first. "++
      "The kernels index rows as `base + row * cols`, which is only "++
      "valid for a contiguous row-major layout."
  | .notFloat32 name got => name++" must be float32, got "++typeText got
  | .shapes gate up => "gate and up must have the same shape, got "++sizesText gate++" and "++
      sizesText up
  | .empty size => "no tensor of "++toString size++" elements"
  | .view size sizes => "no view of "++toString size++" elements as "++sizesText sizes
  | .launch grid block => "no launch of "++toString grid++" blocks of "++toString block

end Texts

section Tensors

variable {K : Type}

namespace Tensor

/-- `ndim`. -/
def ndim (x : Tensor K) : ℕ := x.sizes.length

/-- `shape[index]`. -/
def size (x : Tensor K) (index : ℕ) : ℕ := x.sizes.getD index 0

/-- `shape[-1]`. -/
def lastSize (x : Tensor K) : Except Raised ℕ :=
  match x.sizes.getLast? with
  | some size => .ok size
  | none => .error (.indexError "tuple index out of range")

/-- Whether the elements are floats. -/
def isFloat (x : Tensor K) : Bool := decide (x.dtype=.float32)

/-- Whether it is a matrix of floats. -/
def floatMatrix (x : Tensor K) : Bool := decide (x.ndim=2) && x.isFloat

/-- The tensor as the bindings see it. -/
def onDevice (x : Tensor K) : ElementwiseLaunches.Tensor K :=
  ⟨x.sizes,x.dtype,x.isContiguous,x.address,x.storage⟩

/-- `contiguous`: a copy is made where it is needed. -/
def contiguous (s : Session) (address : ℕ) (x : Tensor K) : Tensor K :=
  if x.isContiguous then x
  else ⟨x.compact,x.dtype,x.cuda,s.gradEnabled && x.requiresGrad,address⟩

/-- `clone`. -/
def answer (x : Tensor K) : Answer K := ⟨x.sizes,x.dtype,(List.range x.numel).map x.element⟩

end Tensor

/-- A tensor of a shape and a type with these elements. -/
def answered (sizes : List ℕ) (dtype : ScalarType) (value : ℕ → K) : Answer K :=
  ⟨sizes,dtype,(List.range sizes.prod).map value⟩

end Tensors

section Dispatch

variable {K : Type}

/-- The operators that `TORCH_LIBRARY` defines. -/
def operators : List String :=
  ["rmsnorm","softmax","lora_linear","sum","silu","gelu","swiglu","fused_residual_rmsnorm",
    "quantize_int8","dequantize_int8"]

/-- `_needs_autograd`. -/
def needsAutograd (s : Session) (tensors : List (Tensor K)) : Bool :=
  s.gradEnabled && tensors.any (·.requiresGrad)

/-- `_dispatch_available`. -/
def dispatchAvailable (s : Session) (name : String) (tensors : List (Tensor K)) : Bool :=
  if ¬s.extension.loaded then false
  else if ¬operators.contains name then false
  else if needsAutograd s tensors then false
  else if (tensors.head?.map Tensor.cuda).getD false then s.extension.cudaCompiled
  else true

/-- The call of an operator of the extension: torch takes the implementation for CUDA
as soon as one tensor is there. -/
def callOperator (s : Session) (name : String) (tensors : List (Tensor K))
    (cpu cuda : Except Raised (List (Answer K))) : Except Raised (List (Answer K)) :=
  if tensors.any (·.cuda) then
    if s.extension.cudaCompiled then cuda else .error (.notImplemented name)
  else cpu

/-- An operator of `ops.py`, which checks its arguments, returns clones of empty inputs,
and otherwise asks the extension about its contiguous tensors, if they fit it. -/
def operator (s : Session) (name : String) (arguments : Except Raised Unit)
    (clones : Option (List (Answer K))) (fits : Bool) (tensors : List (Tensor K))
    (cpu cuda reference : Except Raised (List (Answer K))) : Except Raised (Result K) := do
  arguments
  match clones with
  | some tensors => return ⟨.clone,tensors⟩
  | none =>
    if dispatchAvailable s name tensors && fits then
      let tensors ← callOperator s name tensors cpu cuda
      return ⟨.extension,tensors⟩
    else
      let tensors ← reference
      return ⟨.reference,tensors⟩

end Dispatch

section Bindings

variable {K : Type}

/-- `TORCH_CHECK`. -/
def check (condition : Bool) (text : String) : Except Raised Unit :=
  if condition then .ok () else .error (.runtimeError text)

/-- What a check or a launch of the bindings reports, as an exception. -/
def raised {α : Type} : Except Failure α → Except Raised α
  | .ok value => .ok value
  | .error failure => .error (.runtimeError (failureText failure))

/-- What the arrays of a launch hold behind it. -/
def launched {α : Type} : Option α → Except Raised α
  | some arrays => .ok arrays
  | none => .error .undefined

/-- `check_2d`. -/
def check2d (x : Tensor K) (name : String) : Except Raised Unit :=
  check (decide (x.ndim=2)) (name++" must be 2-D, got "++toString x.ndim++" dimensions")

/-- `check_float32`. -/
def checkFloat32 (x : Tensor K) (name : String) : Except Raised Unit :=
  raised (ElementwiseLaunches.checkFloat32 x.onDevice name)

/-- `check_last_dim_contiguous`. -/
def checkLastDimContiguous (x : Tensor K) (name : String) : Except Raised Unit :=
  raised (ElementwiseLaunches.checkLastDimContiguous x.onDevice name)

end Bindings

/-- What torch computes. -/
structure Torch (K : Type) where
  /-- A number in a type. -/
  round : ScalarType → K → K
  /-- The type of a sum. -/
  promote : ScalarType → ScalarType → ScalarType
  /-- `rsqrt`. -/
  rsqrt : K → K

/-- What is used of that: arithmetic in float32 is taken to be exact. -/
structure Torch.Exact {K : Type} (t : Torch K) : Prop where
  /-- A number is the same in float32. -/
  round_float32 : ∀ value, t.round .float32 value=value
  /-- A sum of floats is one. -/
  promote_float32 : t.promote .float32 .float32=.float32

/-- What a launch meets on the GPU. -/
structure Gpu (K : Type) where
  /-- The order of blocks and threads. -/
  schedule : ∀ rows blockDim : ℕ, Schedule rows blockDim
  /-- What the shared memory of a block holds. -/
  scratch : ℕ → ℕ → K
  /-- What a tensor of `torch::empty` holds. -/
  memory : ℕ → K
  /-- Where the allocator puts the tensors of a call. -/
  address : ℕ → ℕ

section Copies

variable {K : Type} (s : Session) (address : ℕ) (x : Tensor K)

/-- A contiguous tensor has the shape of the one it is made of. -/
theorem contiguous_sizes : (x.contiguous s address).sizes=x.sizes := by
  rw [Tensor.contiguous]
  split <;> rfl

/-- It has its type. -/
theorem contiguous_dtype : (x.contiguous s address).dtype=x.dtype := by
  rw [Tensor.contiguous]
  split <;> rfl

/-- It is where the other is. -/
theorem contiguous_cuda : (x.contiguous s address).cuda=x.cuda := by
  rw [Tensor.contiguous]
  split <;> rfl

/-- Its elements lie one behind another. -/
theorem contiguous_isContiguous : (x.contiguous s address).isContiguous=true := by
  rw [Tensor.contiguous]
  split
  · next h => exact h
  · exact x.compact_isContiguous

/-- They are the same. -/
theorem contiguous_element {place : ℕ} (hp : place < x.numel) :
    (x.contiguous s address).element place=x.element place := by
  rw [Tensor.contiguous]
  split
  · rfl
  · exact x.compact_element hp

/-- A gradient is wanted of it when it is wanted of the other. -/
theorem contiguous_requiresGrad :
    (s.gradEnabled && (x.contiguous s address).requiresGrad)=(s.gradEnabled && x.requiresGrad) := by
  rw [Tensor.contiguous]
  split
  · rfl
  · change (s.gradEnabled && (s.gradEnabled && x.requiresGrad))=(s.gradEnabled && x.requiresGrad)
    rw [←Bool.and_assoc,Bool.and_self]

/-- It has as many dimensions. -/
theorem contiguous_ndim : (x.contiguous s address).ndim=x.ndim := by
  rw [Tensor.ndim,Tensor.ndim,contiguous_sizes]

/-- It is a matrix of floats when the other is one. -/
theorem contiguous_floatMatrix : (x.contiguous s address).floatMatrix=x.floatMatrix := by
  rw [Tensor.floatMatrix,Tensor.floatMatrix,Tensor.isFloat,Tensor.isFloat,contiguous_ndim,
    contiguous_dtype]

/-- One more tensor. -/
theorem needsAutograd_cons (rest : List (Tensor K)) : needsAutograd s (x::rest)=
    ((s.gradEnabled && x.requiresGrad) || needsAutograd s rest) := by
  rw [needsAutograd,needsAutograd,List.any_cons,Bool.and_or_distrib_left]

/-- Making a tensor contiguous does not matter. -/
theorem needsAutograd_contiguous (rest : List (Tensor K)) :
    needsAutograd s (x.contiguous s address::rest)=needsAutograd s (x::rest) := by
  rw [needsAutograd_cons,needsAutograd_cons,contiguous_requiresGrad]

/-- Nor behind another. -/
theorem needsAutograd_congr {rest other : List (Tensor K)}
    (h : needsAutograd s rest=needsAutograd s other) :
    needsAutograd s (x::rest)=needsAutograd s (x::other) := by
  rw [needsAutograd_cons,needsAutograd_cons,h]

end Copies

section Agreement

variable {K : Type} {s : Session} {name : String} {arguments : Except Raised Unit}
  {clones : Option (List (Answer K))} {fits : Bool} {first : Tensor K} {rest : List (Tensor K)}
  {cpu cuda reference : Except Raised (List (Answer K))}

/-- The extension is asked when it has an implementation for the device of the first
tensor and no gradient is wanted. -/
theorem dispatchAvailable_iff (hname : operators.contains name=true) :
    dispatchAvailable s name (first::rest)=true ↔ s.extension.loaded=true ∧
      needsAutograd s (first::rest)=false ∧ (first.cuda=true → s.extension.cudaCompiled=true) := by
  rw [dispatchAvailable,hname]
  change (if ¬s.extension.loaded=true then false else if ¬true=true then false
    else if needsAutograd s (first::rest)=true then false
    else if first.cuda=true then s.extension.cudaCompiled else true)=true ↔ _
  cases s.extension.loaded <;> cases needsAutograd s (first::rest) <;> cases first.cuda <;>
    cases s.extension.cudaCompiled <;> decide

/-- On one device the implementation for it is called. -/
theorem callOperator_eq (hdevice : ∀ other∈rest, other.cuda=first.cuda)
    (hcompiled : first.cuda=true → s.extension.cudaCompiled=true) :
    callOperator s name (first::rest) cpu cuda=if first.cuda then cuda else cpu := by
  have hany : (first::rest).any (·.cuda)=first.cuda := by
    cases hc : first.cuda with
    | true => rw [List.any_cons,hc,Bool.true_or]
    | false =>
      refine List.any_eq_false.mpr fun other hm => ?_
      rcases List.mem_cons.mp hm with rfl | hm
      · rw [hc]
        exact Bool.false_ne_true
      · rw [hdevice other hm,hc]
        exact Bool.false_ne_true
  rw [callOperator,hany]
  cases hc : first.cuda with
  | true => rw [if_pos rfl,if_pos (hcompiled hc),if_pos rfl]
  | false => rfl

/-- An extension with CUDA kernels has been loaded. -/
theorem loaded_of_cudaCompiled {extension : Extension} (h : extension.cudaCompiled=true) :
    extension.loaded=true := by
  cases extension with
  | missing => exact h
  | broken error => exact h
  | cpuOnly => rfl
  | withCuda => rfl

/-- What is done with arguments that are in order and not empty. -/
theorem operator_open (tensors : List (Tensor K)) :
    operator s name (.ok ()) none fits tensors cpu cuda reference=
      if (dispatchAvailable s name tensors && fits)=true then
        (callOperator s name tensors cpu cuda).map (Result.mk .extension)
      else reference.map (Result.mk .reference) := by
  change (if (dispatchAvailable s name tensors && fits)=true then _ else _)=_
  split
  · cases callOperator s name tensors cpu cuda <;> rfl
  · cases reference <;> rfl

/-- Which implementation has answered does not matter. -/
theorem tensors_mk (path : Path) (answer : Except Raised (List (Answer K))) :
    (answer.map (Result.mk path)).map Result.tensors=answer := by
  cases answer <;> rfl

/-- An operator whose implementation for the CPU repeats the reference, and whose
implementation for the GPU does so or raises an error, returns the reference, or raises
that error where the GPU is asked. -/
theorem operator_agrees (hname : operators.contains name=true)
    (hdevice : ∀ other∈rest, other.cuda=first.cuda) {refused : Prop} [Decidable refused]
    {error : Raised}
    (hcpu : arguments=.ok () → clones=none → fits=true → cpu=reference)
    (hcuda : arguments=.ok () → clones=none → fits=true →
      cuda=if refused then .error error else reference) :
    (operator s name arguments clones fits (first::rest) cpu cuda reference).map Result.tensors=
      if (arguments=.ok () ∧ clones=none) ∧ fits=true ∧ first.cuda=true ∧
          s.extension.cudaCompiled=true ∧ needsAutograd s (first::rest)=false ∧ refused then
        .error error
      else arguments >>= fun _ => (clones.map Except.ok).getD reference := by
  by_cases hopen : arguments=.ok () ∧ clones=none
  · obtain ⟨rfl,rfl⟩ := hopen
    rw [operator_open]
    by_cases hask : dispatchAvailable s name (first::rest)=true ∧ fits=true
    · obtain ⟨hl,hn,hc⟩ := (dispatchAvailable_iff hname).mp hask.1
      rw [if_pos (Bool.and_eq_true_iff.mpr hask),callOperator_eq hdevice hc]
      by_cases hfirst : first.cuda=true
      · rw [if_pos hfirst,hcuda rfl rfl hask.2,tensors_mk]
        by_cases hr : refused
        · rw [if_pos hr,if_pos ⟨⟨rfl,rfl⟩,hask.2,hfirst,hc hfirst,hn,hr⟩]
        · rw [if_neg hr,if_neg fun h => hr h.2.2.2.2.2]
          rfl
      · rw [if_neg hfirst,hcpu rfl rfl hask.2,tensors_mk,if_neg fun h => hfirst h.2.2.1]
        rfl
    · rw [if_neg fun h => hask (Bool.and_eq_true_iff.mp h),tensors_mk,if_neg ?_]
      · rfl
      rintro ⟨-,hf,-,hcompiled,hn,-⟩
      exact hask ⟨(dispatchAvailable_iff hname).mpr
        ⟨loaded_of_cudaCompiled hcompiled,hn,fun _ => hcompiled⟩,hf⟩
  · rw [if_neg fun h => hopen h.1]
    cases arguments with
    | error e => rfl
    | ok u =>
      cases clones with
      | some tensors => rfl
      | none => exact absurd ⟨rfl,rfl⟩ hopen

/-- What the extension has answered needs no gradient. -/
theorem operator_path (hname : operators.contains name=true) {r : Result K}
    (h : operator s name arguments clones fits (first::rest) cpu cuda reference=.ok r)
    (hp : r.path=.extension) : needsAutograd s (first::rest)=false := by
  cases arguments with
  | error e => cases h
  | ok u =>
    cases clones with
    | some tensors =>
      obtain rfl := Except.ok.inj h
      cases hp
    | none =>
      rw [operator_open] at h
      split at h
      · next hask =>
        exact ((dispatchAvailable_iff hname).mp (Bool.and_eq_true_iff.mp hask).1).2.1
      · cases reference with
        | error e => cases h
        | ok tensors =>
          obtain rfl := Except.ok.inj h
          cases hp

/-- A call asks for a kernel on the GPU. -/
structure Asks (s : Session) (arguments : Except Raised Unit) (fits : Bool) (x : Tensor K)
    (others : List (Tensor K)) : Prop where
  /-- Its arguments are in order. -/
  accepted : arguments=.ok ()
  /-- There is something to compute. -/
  nonempty : x.numel≠0
  /-- Its tensor fits. -/
  fits : fits=true
  /-- It is on the GPU. -/
  cuda : x.cuda=true
  /-- There are kernels. -/
  compiled : s.extension.cudaCompiled=true
  /-- No gradient is wanted. -/
  ungraded : needsAutograd s (x::others)=false

/-- An operator returns what the reference makes of its arguments, whatever
implementation answers, or raises the error of the one for the GPU where it asks for a
kernel. What the extension answers needs no gradient. -/
theorem operator_asks {x : Tensor K} {others : List (Tensor K)} {cloned : List (Answer K)}
    {wanted : Except Raised (List (Answer K))}
    (hname : operators.contains name=true) (hfirst : first.cuda=x.cuda)
    (hdevice : ∀ other∈rest, other.cuda=first.cuda)
    (hneeds : needsAutograd s (first::rest)=needsAutograd s (x::others)) {refused : Prop}
    [Decidable refused] {error : Raised}
    (hcpu : arguments=.ok () → fits=true → cpu=reference)
    (hcuda : arguments=.ok () → fits=true → cuda=if refused then .error error else reference)
    (hwanted : arguments=.ok () → reference=wanted) :
    (¬(Asks s arguments fits x others ∧ refused) →
      (operator s name arguments (if x.numel=0 then some cloned else none) fits (first::rest) cpu
        cuda reference).map Result.tensors=
          (arguments >>= fun _ => if x.numel=0 then .ok cloned else wanted)) ∧
    (Asks s arguments fits x others → refused →
      (operator s name arguments (if x.numel=0 then some cloned else none) fits (first::rest) cpu
        cuda reference).map Result.tensors=.error error) ∧
    ∀ r, operator s name arguments (if x.numel=0 then some cloned else none) fits (first::rest) cpu
      cuda reference=.ok r → r.path=.extension → needsAutograd s (x::others)=false := by
  have hclones : (if x.numel=0 then some cloned else none)=none ↔ x.numel≠0 := by
    split
    · next h => exact iff_of_false (fun hs => by cases hs) (not_not_intro h)
    · next h => exact iff_of_true rfl h
  have hmain := @operator_agrees K s name arguments (if x.numel=0 then some cloned else none) fits
    first rest cpu cuda reference hname hdevice refused _ error (fun ha _ => hcpu ha)
    (fun ha _ => hcuda ha)
  refine ⟨fun h => ?_,fun h hr => ?_,fun r hr hp => ?_⟩
  · rw [hmain,if_neg]
    · cases arguments with
      | error e => rfl
      | ok u =>
        rw [hwanted rfl]
        split <;> rfl
    rintro ⟨⟨ha,hc⟩,hf,hg,hcompiled,hn,hrefused⟩
    exact h ⟨⟨ha,hclones.mp hc,hf,hfirst.symm.trans hg,hcompiled,hneeds.symm.trans hn⟩,hrefused⟩
  · rw [hmain,if_pos ⟨⟨h.accepted,hclones.mpr h.nonempty⟩,h.fits,hfirst.trans h.cuda,h.compiled,
      hneeds.trans h.ungraded,hr⟩]
  · exact hneeds.symm.trans (operator_path hname hr hp)

end Agreement

section Checks

variable {K : Type} {s : Session} {x residual weight : Tensor K} {name : String}

/-- Behind a check that has passed. -/
theorem ok_bind {α β : Type} (value : α) (rest : α → Except Raised β) :
    (Except.ok value >>= rest)=rest value := rfl

/-- A tensor of two dimensions passes. -/
theorem check2d_ok (h : x.ndim=2) : check2d x name=.ok () := by
  rw [check2d,decide_eq_true h]
  rfl

/-- A tensor of floats passes, any other is refused. -/
theorem checkFloat32_eq : checkFloat32 x name=if x.dtype≠.float32 then
    .error (.runtimeError (name++" must be float32, got "++typeText x.dtype)) else .ok () := by
  rw [checkFloat32,ElementwiseLaunches.checkFloat32]
  change raised (if x.dtype=.float32 then _ else _)=_
  by_cases h : x.dtype=.float32
  · rw [if_pos h,if_neg (not_not_intro h)]
    rfl
  · rw [if_neg h,if_pos h]
    rfl

/-- A tensor of floats passes. -/
theorem checkFloat32_ok (h : x.dtype=.float32) : checkFloat32 x name=.ok () := by
  rw [checkFloat32_eq,if_neg (not_not_intro h)]

/-- A contiguous tensor passes. -/
theorem checkLastDimContiguous_ok (h : x.isContiguous=true) :
    checkLastDimContiguous x name=.ok () := by
  rw [checkLastDimContiguous,ElementwiseLaunches.checkLastDimContiguous]
  change raised (if x.isContiguous=true then _ else _)=_
  rw [if_pos h]
  rfl

/-- A condition that holds passes. -/
theorem check_ok {condition : Bool} {text : String} (h : condition=true) :
    check condition text=.ok () := if_pos h

/-- The elements of a contiguous tensor are what its data holds. -/
theorem storage_eq (h : x.isContiguous=true) {place : ℕ} (hp : place < x.numel) :
    x.storage place=x.element place := (Strided.element_contiguous h hp).symm

/-- Answers of one shape agree when their elements do. -/
theorem answered_congr {sizes : List ℕ} {dtype : ScalarType} {value other : ℕ → K}
    (h : ∀ place < sizes.prod, value place=other place) :
    answered sizes dtype value=answered sizes dtype other := by
  rw [answered,answered,List.map_congr_left fun place hm => h place (List.mem_range.mp hm)]

/-- A shape of two dimensions. -/
theorem sizes_two (h : x.ndim=2) : x.sizes=[x.size 0,x.size 1] := by
  obtain ⟨rows,cols,hs⟩ := List.length_eq_two.mp h
  rw [Tensor.size,Tensor.size,hs]
  rfl

/-- A matrix has as many elements as its rows hold. -/
theorem numel_matrix (h : x.ndim=2) : x.sizes.prod=x.size 0*x.size 1 := by
  rw [sizes_two h,List.prod_cons,List.prod_singleton]

/-- A vector has as many as it is long. -/
theorem numel_vector (h : x.ndim=1) : x.sizes.prod=x.size 0 := by
  obtain ⟨size,hs⟩ := List.length_eq_one_iff.mp h
  rw [Tensor.size,hs,List.prod_singleton]
  rfl

/-- The sizes of a tensor leave room in an `int` for one more step of the largest
block. -/
def SizesFit (x : Tensor K) : Prop := ∀ size∈x.sizes, size+maxBlockSize ≤ intMax+1

/-- The sizes of a matrix that leave room are not changed by the conversion to `int`. -/
theorem wrap_sizes (h : x.ndim=2) (hfit : SizesFit x) :
    wrap (x.size 0 : ℤ)=x.size 0 ∧ wrap (x.size 1 : ℤ)=x.size 1 ∧
      x.size 1+maxBlockSize ≤ intMax+1 := by
  have hrows := hfit (x.size 0) (sizes_two h ▸ List.mem_cons_self)
  have hcols := hfit (x.size 1) (sizes_two h ▸ List.mem_cons_of_mem _ List.mem_cons_self)
  have hlimit : intMax=2147483647 := rfl
  have hblock : maxBlockSize=1024 := rfl
  exact ⟨wrap_eq (by omega) (by omega),wrap_eq (by omega) (by omega),hcols⟩

/-- A matrix of floats. -/
theorem floatMatrix_iff : x.floatMatrix=true ↔ x.ndim=2 ∧ x.dtype=.float32 := by
  rw [Tensor.floatMatrix,Tensor.isFloat,Bool.and_eq_true,decide_eq_true_eq,decide_eq_true_eq]

/-- The gains are as long as the rows of a contiguous matrix. -/
theorem gains_size {address : ℕ} (h : (x.contiguous s address).ndim=2)
    (hl : x.sizes.getLast?=some (weight.size 0)) (other : ℕ) :
    (weight.contiguous s other).size 0=(x.contiguous s address).size 1 := by
  have hsizes := sizes_two h
  rw [contiguous_sizes] at hsizes
  rw [hsizes] at hl
  rw [Tensor.size,contiguous_sizes]
  exact (Option.some.inj hl).symm

end Checks

section Samples

/-- Arithmetic in which every scale is two. -/
def doubling : Torch ℚ :=
  ⟨fun _ value => value,fun _ _ => .float32,fun _ => 2⟩

/-- It is exact in float32. -/
theorem doubling_exact : doubling.Exact := ⟨fun _ => rfl,rfl⟩

/-- A GPU that runs everything in order. -/
def inOrder : Gpu ℚ :=
  ⟨ascending,fun _ _ => 0,fun _ => 0,fun index => 512*index⟩

/-- An extension with kernels, and no gradients. -/
def serving : Session := ⟨.withCuda,false⟩

/-- One, two, three and so on, as a matrix of this shape and these strides on the GPU. -/
def numbered (rows cols rowStride colStride : ℕ) : Tensor ℚ :=
  ⟨⟨[rows,cols],[rowStride,colStride],rfl,fun place => place+1⟩,.float32,true,false,0⟩

/-- Two rows of three fit. -/
theorem numbered_fit (rowStride colStride : ℕ) :
    SizesFit (numbered 2 3 rowStride colStride) := by
  intro size hm
  have hsize : size≤3 := by
    rcases List.mem_cons.mp hm with rfl|hm
    · decide
    · exact (List.mem_singleton.mp hm).le
  have hblock : maxBlockSize=1024 := rfl
  have hlimit : intMax=2147483647 := rfl
  omega

end Samples

end CudaForge.OperatorDispatch
