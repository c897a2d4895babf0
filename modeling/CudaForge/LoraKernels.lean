import CudaForge.BarrierPrograms
import CudaForge.BlockReductions
import CudaForge.CeilDivision
import CudaForge.SoftmaxKernels
import CudaForge.ThreadPhases
import CudaForge.WrappedIntegers

/-!
# The kernels of the LoRA linear layer

`launch_lora_linear` and its kernels in exact arithmetic. A grid of blocks
covers the output in tiles of sixteen by sixteen, one thread an element; the
threads of a block stage tiles of both operands in shared memory between
barriers. The blocks run in any order, and so do the threads between two
barriers. A device takes a launch whose grid and shared memory are within its
limits. The fused kernel and the three launches of the unfused path leave the same
output.
-/

namespace CudaForge.LoraKernels

open BarrierPrograms BlockReductions SoftmaxKernels ThreadPhases WrappedIntegers

/-- `kTile`. -/
def kTile : ℕ := 16

instance : NeZero kTile := ⟨by decide⟩

/-- `threadIdx`, in a block of `kTile` by `kTile` threads. -/
structure ThreadIdx where
  /-- `threadIdx.y`. -/
  y : Fin kTile
  /-- `threadIdx.x`. -/
  x : Fin kTile
  deriving DecidableEq

/-- `blockIdx`. -/
structure BlockIdx where
  /-- `blockIdx.y`. -/
  y : ℕ
  /-- `blockIdx.x`. -/
  x : ℕ
  deriving DecidableEq

/-- What the threads of a block can store to. -/
inductive Cell where
  /-- `tile_a` of `matmul_tiled`, `tile_x` of `lora_fused`. -/
  | left (y x : Fin kTile)
  /-- `tile_b` and `tile_w`, whose rows are padded by one. -/
  | right (y : Fin kTile) (x : Fin (kTile+1))
  /-- `xa_tile`. -/
  | adapter (place : ℕ)
  /-- The buffer in global memory that the kernel writes to. -/
  | output (place : ℕ)
  deriving DecidableEq

/-- The place of a cell in the output. -/
def Cell.output? : Cell → Option ℕ
  | .output place => some place
  | _ => none

/-- `row`, in all kernels. -/
def rowOf (block : BlockIdx) (thread : ThreadIdx) : ℕ := block.y*kTile+thread.y

/-- `col`, in all kernels. -/
def colOf (block : BlockIdx) (thread : ThreadIdx) : ℕ := block.x*kTile+thread.x

section Kernels

variable {K : Type} [CommRing K]

/-- A loop that adds up so many terms. -/
def accumulate (count : ℕ) (terms : ℕ → K) : K :=
  (List.range count).foldl (fun accumulator i => accumulator+terms i) 0

/-- The loads of a turn of the tile loop, up to its first barrier. -/
def loadTiles (left right : ℕ → K) (m n k : ℕ) (block : BlockIdx) (t : ℕ) (thread : ThreadIdx) :
    Stage K Cell K :=
  fun accumulator _ =>
    let leftCol := t*kTile+thread.x
    let rightRow := t*kTile+thread.y
    let row := rowOf block thread
    let col := colOf block thread
    (accumulator,
      [(.left thread.y thread.x,if row < m ∧ leftCol<k then left (row*k+leftCol) else 0),
        (.right thread.y thread.x.castSucc,
          if rightRow<k ∧ col<n then right (rightRow*n+col) else 0)])

/-- The products of a turn, up to its second barrier. -/
def multiplyTiles (thread : ThreadIdx) : Stage K Cell K :=
  fun accumulator memory =>
    ((List.finRange kTile).foldl (fun accumulator i =>
      accumulator+memory (.left thread.y i)*memory (.right i thread.x.castSucc)) accumulator,[])

/-- The tile loop of `matmul_tiled` and of `lora_fused`, in one thread. -/
def tileLoop (left right : ℕ → K) (m n k : ℕ) (block : BlockIdx) (thread : ThreadIdx) :
    List (Stage K Cell K) :=
  (List.range (ceilDiv k kTile)).flatMap (fun t =>
    [loadTiles left right m n k block t thread,multiplyTiles thread])

/-- What `matmul_tiled` does behind its last barrier. -/
def storeProduct (m n : ℕ) (block : BlockIdx) (thread : ThreadIdx) : Stage K Cell K :=
  fun accumulator _ =>
    let row := rowOf block thread
    let col := colOf block thread
    (accumulator,if row < m ∧ col<n then [(.output (row*n+col),accumulator)] else [])

/-- `matmul_tiled`. -/
def matmulTiled (a b : ℕ → K) (m n k : ℕ) (block : BlockIdx) (thread : ThreadIdx) :
    List (Stage K Cell K) :=
  tileLoop a b m n k block thread++[storeProduct m n block thread]

/-- The body of `accumulate_lora`. -/
def addAdapter (p b : ℕ → K) (batch outFeatures rank : ℕ) (scale : K) (block : BlockIdx)
    (thread : ThreadIdx) : Stage K Cell K :=
  fun registers memory =>
    let row := rowOf block thread
    let col := colOf block thread
    if batch≤row ∨ outFeatures≤col then (registers,[])
    else
      let accumulator := accumulate rank (fun r => p (row*rank+r)*b (r*outFeatures+col))
      (registers,[(.output (row*outFeatures+col),
        memory (.output (row*outFeatures+col))+scale*accumulator)])

/-- `accumulate_lora`. -/
def accumulateLora (p b : ℕ → K) (batch outFeatures rank : ℕ) (scale : K) (block : BlockIdx)
    (thread : ThreadIdx) : List (Stage K Cell K) :=
  [addAdapter p b batch outFeatures rank scale block thread]

/-- The first phase of `lora_fused`, up to its barrier. -/
def adapterPhase (x a : ℕ → K) (batch inFeatures rank : ℕ) (block : BlockIdx)
    (thread : ThreadIdx) : Stage K Cell K :=
  fun registers _ =>
    let row := rowOf block thread
    (registers,(columnsOf rank kTile thread.x).map (fun r =>
      (.adapter (thread.y*rank+r),
        if row<batch then accumulate inFeatures (fun i => x (row*inFeatures+i)*a (i*rank+r))
        else 0)))

/-- What `lora_fused` does behind its last barrier, where a thread out of range
returns. -/
def storeFused (b : ℕ → K) (batch outFeatures rank : ℕ) (scale : K) (block : BlockIdx)
    (thread : ThreadIdx) : Stage K Cell K :=
  fun frozen memory =>
    let row := rowOf block thread
    let col := colOf block thread
    if batch≤row ∨ outFeatures≤col then (frozen,[])
    else
      let adapter := accumulate rank (fun r =>
        memory (.adapter (thread.y*rank+r))*b (r*outFeatures+col))
      (frozen,[(.output (row*outFeatures+col),frozen+scale*adapter)])

/-- `lora_fused`. -/
def loraFused (x w a b : ℕ → K) (batch inFeatures outFeatures rank : ℕ) (scale : K)
    (block : BlockIdx) (thread : ThreadIdx) : List (Stage K Cell K) :=
  adapterPhase x a batch inFeatures rank block thread::
    (tileLoop x w batch outFeatures inFeatures block thread++
      [storeFused b batch outFeatures rank scale block thread])

/-- How a device runs the blocks of a grid. -/
structure Execution (gridY gridX : ℕ) (K : Type) where
  /-- The order of the blocks. -/
  blocks : List BlockIdx
  /-- No block runs twice. -/
  blocks_nodup : blocks.Nodup
  /-- All blocks of the grid run. -/
  mem_blocks : ∀ block, block∈blocks ↔ block.y<gridY ∧ block.x<gridX
  /-- The order of a block's threads, round after round. -/
  threads : BlockIdx → ℕ → List ThreadIdx
  /-- No thread runs twice in a round. -/
  threads_nodup : ∀ block round, (threads block round).Nodup
  /-- All threads run in a round. -/
  mem_threads : ∀ block round thread, thread∈threads block round
  /-- What a block finds in its shared memory. -/
  shared : BlockIdx → Cell → K

/-- What a block sees when it starts. -/
def startMemory (shared : Cell → K) (output : ℕ → K) : Cell → K
  | .output place => output place
  | cell => shared cell

/-- The threads of one block run: the output that they leave and the places in it
that they stored to. No value when a barrier is not passed. -/
def runBlock (programs : ThreadIdx → List (Stage K Cell K)) (threads : ℕ → List ThreadIdx)
    (shared : Cell → K) (output : ℕ → K) : Option ((ℕ → K)×List ℕ) :=
  let start : BlockState ThreadIdx K Cell K := ⟨fun _ => 0,startMemory shared output,[]⟩
  (runPrograms threads (programs ⟨0,0⟩).length 0 programs start).map
    (fun s => (fun place => s.memory (.output place),s.stored.filterMap Cell.output?))

/-- The blocks of a grid run. -/
def runGrid {gridY gridX : ℕ} (kernel : BlockIdx → ThreadIdx → List (Stage K Cell K))
    (run : Execution gridY gridX K) (output : ℕ → K) : Option ((ℕ → K)×List ℕ) :=
  run.blocks.foldlM (fun done block =>
    (runBlock (kernel block) (run.threads block) (run.shared block) done.1).map
      (fun next => (next.1,done.2++next.2))) (output,[])

/-- Why a launch does not return. -/
inductive LaunchError where
  /-- `std::invalid_argument`. -/
  | invalidArgument (message : String)
  /-- The device refuses the launch, which `CUDAFORGE_CHECK_LAUNCH` reports. -/
  | refused
  /-- A size that an `int` cannot round up to tiles: the behaviour is undefined. -/
  | overflow
  /-- A barrier that not all threads of a block reach. -/
  | barrier
  deriving DecidableEq,Repr

/-- The blocks that a grid may have in its second dimension. -/
def maxGridY : ℕ := 65535

/-- The bytes of `tile_a` and `tile_b`, and of `tile_x` and `tile_w`. -/
def tileBytes : ℕ := (kTile*kTile+kTile*(kTile+1))*floatBytes

/-- Whether `ceil_div` of a size by `kTile` stays within an `int`. -/
def RoundsUp (size : ℤ) : Prop := size+(kTile-1) ≤ intMax

instance (size : ℤ) : Decidable (RoundsUp size) := inferInstanceAs (Decidable (_≤_))

/-- A kernel launch whose blocks take so many bytes of shared memory, on a device with
a limit to them: the output, and the places stored to as the launch's own entry. -/
def launchKernel (maxSharedMemoryPerBlock sharedBytes : ℕ) {gridY gridX : ℕ}
    (kernel : BlockIdx → ThreadIdx → List (Stage K Cell K)) (run : Execution gridY gridX K)
    (output : ℕ → K) : Except LaunchError ((ℕ → K)×List (List ℕ)) :=
  if sharedBytes ≤ maxSharedMemoryPerBlock ∧ gridX ≤ intMax ∧ gridY ≤ maxGridY then
    match runGrid kernel run output with
    | none => .error .barrier
    | some (output,stored) => .ok (output,[stored])
  else .error .refused

/-- `launch_matmul`. -/
def launchMatmul (maxSharedMemoryPerBlock : ℕ) (a b c : ℕ → K) (m n k : ℤ)
    (run : Execution (ceilDiv m.toNat kTile) (ceilDiv n.toNat kTile) K) :
    Except LaunchError ((ℕ → K)×List (List ℕ)) :=
  if m≤0 ∨ n≤0 ∨ k≤0 then .ok (c,[])
  else if RoundsUp m ∧ RoundsUp n ∧ RoundsUp k then
    launchKernel maxSharedMemoryPerBlock tileBytes (matmulTiled a b m.toNat n.toNat k.toNat) run c
  else .error .overflow

/-- `LoRAKernel`. -/
inductive LoRAKernel where
  /-- Three launches, with the intermediate in a workspace. -/
  | unfused
  /-- One kernel, with the intermediate in shared memory. -/
  | fused
  deriving DecidableEq,Repr

/-- `fused_shared`, in bytes. -/
def fusedShared (rank : ℕ) : ℕ := kTile*rank*floatBytes

/-- `fusable`, on a device with so much shared memory per block. -/
def fusable (maxSharedMemoryPerBlock : ℕ) (variant : LoRAKernel) (rank : ℕ) : Bool :=
  variant=.fused ∧ fusedShared rank ≤ maxSharedMemoryPerBlock

/-- What `launch_lora_linear` leaves. -/
structure Outcome (K : Type) where
  /-- `y`. -/
  y : ℕ → K
  /-- `workspace`, unless it is null. -/
  workspace : Option (ℕ → K)
  /-- The places of `y` that each kernel launch stored to that writes to `y`. -/
  yStored : List (List ℕ)
  /-- The places of the workspace that each kernel launch stored to that writes
  to the workspace. -/
  workspaceStored : List (List ℕ)

/-- How a device runs the grids of the kernels launched, by their number. -/
abbrev Device (K : Type) := ℕ → ∀ gridY gridX, Execution gridY gridX K

/-- `launch_lora_linear`. -/
def launchLoraLinear (maxSharedMemoryPerBlock : ℕ) (device : Device K) (x w a b y : ℕ → K)
    (workspace : Option (ℕ → K)) (batch inFeatures outFeatures rank : ℤ) (scale : K)
    (variant : LoRAKernel) : Except LaunchError (Outcome K) :=
  if batch≤0 ∨ inFeatures≤0 ∨ outFeatures≤0 ∨ rank≤0 then .ok ⟨y,workspace,[],[]⟩
  else if fusable maxSharedMemoryPerBlock variant rank.toNat then
    if RoundsUp batch ∧ RoundsUp inFeatures ∧ RoundsUp outFeatures ∧ RoundsUp rank then do
      let fused ← launchKernel maxSharedMemoryPerBlock (tileBytes+fusedShared rank.toNat)
        (loraFused x w a b batch.toNat inFeatures.toNat outFeatures.toNat rank.toNat scale)
        (device 0 (ceilDiv batch.toNat kTile) (ceilDiv outFeatures.toNat kTile)) y
      return ⟨fused.1,workspace,fused.2,[]⟩
    else .error .overflow
  else
    match workspace with
    | none => .error (.invalidArgument "launch_lora_linear: unfused path requires a workspace")
    | some workspace => do
      let frozen ← launchMatmul maxSharedMemoryPerBlock x w y batch outFeatures inFeatures
        (device 0 _ _)
      let adapter ← launchMatmul maxSharedMemoryPerBlock x a workspace batch rank inFeatures
        (device 1 _ _)
      -- both sizes have been rounded up before
      let summed ← launchKernel maxSharedMemoryPerBlock 0
        (accumulateLora adapter.1 b batch.toNat outFeatures.toNat rank.toNat scale)
        (device 2 (ceilDiv batch.toNat kTile) (ceilDiv outFeatures.toNat kTile)) frozen.1
      return ⟨summed.1,some adapter.1,frozen.2++summed.2,adapter.2⟩

/-- A buffer in row-major order as a matrix. -/
def matrixOf (rows cols : ℕ) (buffer : ℕ → K) : Matrix (Fin rows) (Fin cols) K :=
  fun row col => buffer (row*cols+col)

/-- `_lora_linear_reference`. -/
def loraLinearReference {batch inFeatures outFeatures rank : ℕ}
    (x : Matrix (Fin batch) (Fin inFeatures) K)
    (weight : Matrix (Fin inFeatures) (Fin outFeatures) K)
    (loraA : Matrix (Fin inFeatures) (Fin rank) K)
    (loraB : Matrix (Fin rank) (Fin outFeatures) K) (scale : K) :
    Matrix (Fin batch) (Fin outFeatures) K :=
  x*weight+scale • ((x*loraA)*loraB)

end Kernels

end CudaForge.LoraKernels
