import CudaForge.BlockReductions
import CudaForge.CacheBlocks
import CudaForge.OnlineSoftmax

/-!
# The paged attention kernel

`launch_paged_attention` and its kernel in exact arithmetic. Device memory is
a function of the index, the registers of a block are functions of the
thread. The grid's blocks run in any order and share only the memory they
write to. A device refuses a grid with too many sequences.
-/

namespace CudaForge.PagedAttention

open BlockReductions CacheBlocks

variable {K : Type} [Field K] [LinearOrder K]

/-- The arguments of `launch_paged_attention`, without the output. -/
structure Launch (K : Type) where
  query : ℕ → K
  kCache : ℕ → K
  vCache : ℕ → K
  blockTables : ℕ → BlockId
  contextLens : ℕ → ℤ
  numSequences : ℤ
  numHeads : ℤ
  numKvHeads : ℤ
  headDim : ℤ
  blockSize : ℤ
  maxBlocksPerSequence : ℤ
  scale : K

/-- The sizes as the kernel computes with them, once the launch has found
them positive. -/
structure Geometry where
  numHeads : ℕ
  numKvHeads : ℕ
  headDim : ℕ
  blockSize : ℕ
  maxBlocksPerSequence : ℕ

/-- The sizes of a launch. -/
def Launch.geometry (a : Launch K) : Geometry :=
  ⟨a.numHeads.toNat,a.numKvHeads.toNat,a.headDim.toNat,a.blockSize.toNat,
    a.maxBlocksPerSequence.toNat⟩

/-- The first element of a head's row in the query and the output. -/
def Geometry.row (g : Geometry) (sequence head : ℕ) : ℕ := (sequence*g.numHeads+head)*g.headDim

/-- The KV head that a query head reads. -/
def Geometry.kvHead (g : Geometry) (head : ℕ) : ℕ := head/(g.numHeads/g.numKvHeads)

/-- The first element of a KV head's row at an offset of a physical block. -/
def Geometry.slot (g : Geometry) (block offset kvHead : ℕ) : ℕ :=
  ((block*g.blockSize+offset)*g.numKvHeads+kvHead)*g.headDim

/-- Where the keys and values of a token are, through the block table. -/
def Launch.tokenSlot (a : Launch K) (sequence head token : ℕ) : ℕ :=
  a.geometry.slot
    (a.blockTables (sequence*a.geometry.maxBlocksPerSequence+token/a.geometry.blockSize))
    (token%a.geometry.blockSize) (a.geometry.kvHead head)

/-- What a thread reads from a row; a padded thread has zero. -/
def Geometry.element (g : Geometry) (memory : ℕ → K) (first thread : ℕ) : K :=
  if thread < g.headDim then memory (first+thread) else 0

/-- The registers of a thread that live through the loop. -/
structure Registers (K : Type) where
  runningMax : K
  runningSum : K
  accumulator : K

/-- The registers of a block's threads, and its shared memory. -/
structure Block (K : Type) where
  registers : ℕ → Registers K
  shared : ℕ → K

/-- Threads in a block: whole warps that cover a row. -/
def Geometry.threads (g : Geometry) : ℕ := ceilDiv g.headDim warpSize*warpSize

/-- The body of the loop over the context, in every thread. -/
def Launch.tokenStep (exp : K → K) (fltMax : K) (a : Launch K) (sequence head token : ℕ)
    (b : Block K) : Block K :=
  let q := a.geometry.element a.query (a.geometry.row sequence head)
  let slot := a.tokenSlot sequence head token
  let k := a.geometry.element a.kCache slot
  let reduced := blockReduceSum a.geometry.threads (fun thread => q thread*k thread) b.shared
  let step := fun thread =>
    let r := b.registers thread
    let score := reduced.1 thread*a.scale
    let updatedMax := max r.runningMax score
    let correction := if r.runningMax=-fltMax then 0 else exp (r.runningMax-updatedMax)
    let weight := exp (score-updatedMax)
    let v := a.geometry.element a.vCache slot thread
    ⟨updatedMax,r.runningSum*correction+weight,r.accumulator*correction+weight*v⟩
  ⟨step,reduced.2⟩

/-- The loop over the first `count` tokens. -/
def Launch.tokenLoop (exp : K → K) (fltMax : K) (a : Launch K) (sequence head : ℕ)
    (shared : ℕ → K) : ℕ → Block K
  | 0 => ⟨fun _ => ⟨-fltMax,0,0⟩,shared⟩
  | count+1 => a.tokenStep exp fltMax sequence head count
      (a.tokenLoop exp fltMax sequence head shared count)

/-- What a thread of the block writes to its element of the output row. -/
def Launch.result (exp : K → K) (fltMax : K) (a : Launch K) (shared : ℕ → K)
    (sequence head thread : ℕ) : K :=
  let context := a.contextLens sequence
  if context≤0 then 0
  else
    let r := (a.tokenLoop exp fltMax sequence head shared context.toNat).registers thread
    r.accumulator/r.runningSum

/-- `paged_attention_kernel` in one block: every thread below `headDim`
writes its element. -/
def Launch.kernel (exp : K → K) (fltMax : K) (a : Launch K) (shared : ℕ → K)
    (sequence head : ℕ) (out : ℕ → K) (index : ℕ) : K :=
  let row := a.geometry.row sequence head
  if row ≤ index ∧ index-row < a.geometry.headDim ∧ index-row < a.geometry.threads then
    a.result exp fltMax shared sequence head (index-row)
  else out index

/-- The blocks of the grid, as pairs of a sequence and a head. -/
def Launch.grid (a : Launch K) : List (ℕ×ℕ) :=
  (List.range a.numSequences.toNat).product (List.range a.numHeads.toNat)

/-- The blocks that a grid may have in its second dimension. -/
def maxGridY : ℤ := 65535

/-- `launch_paged_attention`: the output once the grid's blocks have run in
the given order, each with whatever its shared memory held. A grid with too many
sequences is refused, which `CUDAFORGE_CHECK_LAUNCH` reports. -/
def Launch.run (exp : K → K) (fltMax : K) (a : Launch K) (shared : ℕ×ℕ → ℕ → K)
    (order : List (ℕ×ℕ)) (out : ℕ → K) : Option (ℕ → K) :=
  if a.numSequences≤0 ∨ a.numHeads≤0 ∨ a.numKvHeads≤0 ∨ a.headDim≤0 ∨ a.blockSize≤0 ∨
      a.maxBlocksPerSequence≤0 then some out
  else if a.numHeads%a.numKvHeads≠0 then some out
  else if 1024 < a.headDim then some out
  else if maxGridY < a.numSequences then none
  else some (order.foldl
    (fun out block => a.kernel exp fltMax (shared block) block.1 block.2 out) out)

end CudaForge.PagedAttention
