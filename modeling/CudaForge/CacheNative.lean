import Mathlib.Data.Finmap
import CudaForge.CacheManager

/-!
# The native cache manager

The C++ classes `BlockAllocator`, `SequenceBlockTable` and `KVCacheManager`.
Machine integers are natural numbers reduced where an operation may exceed
the word: `size_t` and the counters have 64 bits, block ids and reference
counts 32. The tables are an unordered map, so no computation may depend on
an order of its entries. The enumerations, the outcome record and the fields
of a table are those of the Python side, which names them alike.
-/

namespace CudaForge.CacheNative

open ExceptionState PythonBuiltins CacheBlocks CacheManager

/-- Reduction to `size_t` or `uint64_t`. -/
def word64 (n : ℕ) : ℕ := n%2^64

/-- Reduction to `BlockId` or a reference count. -/
def word32 (n : ℕ) : ℕ := n%2^32

/-- A C++ exception of the standard class it names, with its message; the
last one stands for what the standard leaves undefined. -/
inductive NativeError where
  /-- A precondition of the call does not hold. -/
  | invalidArgument (message : String)
  /-- An index beyond what is held, or a missing key. -/
  | outOfRange (message : String)
  /-- A condition the code asserts cannot arise. -/
  | runtimeError (message : String)
  /-- An unchecked subscript beyond the end of a vector. -/
  | undefined
  deriving DecidableEq,Repr

/-- The native block pool. -/
structure NativeAllocator where
  /-- Number of physical blocks. -/
  total : ℕ
  /-- Tokens that one block holds. -/
  blockSize : ℕ
  /-- The free vector with its back, the next block to hand out, first. -/
  freeList : List BlockId
  /-- Reference count of every block, by block. -/
  referenceCounts : List ℕ
  deriving DecidableEq

namespace NativeAllocator

/-- The constructor; block ids are truncated to their type. -/
def create (blockCount blockSize : ℕ) : Except NativeError NativeAllocator :=
  if blockCount=0 then
    .error (.invalidArgument "BlockAllocator requires at least one block")
  else if blockSize=0 then
    .error (.invalidArgument "BlockAllocator block_size must be non-zero")
  else .ok ⟨blockCount,blockSize,(List.range blockCount).map word32,List.replicate blockCount 0⟩

/-- Number of physical blocks, free or not. -/
def totalBlocks (a : NativeAllocator) : ℕ := a.total

/-- Number of blocks on the free list. -/
def freeBlocks (a : NativeAllocator) : ℕ := a.freeList.length

/-- Take the block at the back of the free list. -/
def allocate (a : NativeAllocator) : Option BlockId×NativeAllocator :=
  match a.freeList with
  | [] => (none,a)
  | block::rest =>
    (some block,{a with freeList := rest, referenceCounts := a.referenceCounts.set block 1})

/-- Drop a reference; an unknown or already free block is an error. -/
def release (a : NativeAllocator) (block : BlockId) : Except NativeError NativeAllocator :=
  match a.referenceCounts[block]? with
  | none => .error (.outOfRange "BlockAllocator::release on an unknown block")
  | some 0 => .error (.invalidArgument "BlockAllocator::release on an already-free block")
  | some (count+1) => .ok {a with
      referenceCounts := a.referenceCounts.set block count
      freeList := if count=0 then block::a.freeList else a.freeList}

end NativeAllocator

/-- Tokens that fit in the blocks a table holds, in `size_t`. -/
def nativeCapacity (t : SequenceBlockTable) : ℕ := word64 (t.blocks.length*t.blockSize)

/-- Record more tokens; throws when they do not fit. -/
def nativeAddTokens (t : SequenceBlockTable) (count : ℕ) :
    Except NativeError SequenceBlockTable :=
  if nativeCapacity t<word64 (t.tokens+count) then
    .error (.outOfRange
      "SequenceBlockTable::add_tokens beyond the allocated blocks; allocate first")
  else .ok {t with tokens := word64 (t.tokens+count)}

/-- Physical block holding a token, and its offset within it. -/
def nativeLocate (t : SequenceBlockTable) (tokenIndex : ℕ) : Except NativeError (BlockId×ℕ) :=
  if t.tokens ≤ tokenIndex then
    .error (.outOfRange "SequenceBlockTable::locate past the end of the sequence")
  else
    match t.blocks[tokenIndex/t.blockSize]? with
    | none => .error .undefined
    | some block => .ok (block,tokenIndex%t.blockSize)

/-- Block tables by sequence id, without an order. -/
abbrev NativeTables := Finmap (fun _ : SequenceId => SequenceBlockTable)

/-- The native manager's fields; the mutex is not one of them. -/
structure NativeManager where
  /-- The block pool. -/
  allocator : NativeAllocator
  /-- Tokens that one block holds. -/
  blockSize : ℕ
  /-- Whom to evict when the pool is exhausted. -/
  policy : PreemptionPolicy
  /-- Every known sequence, holding blocks or not. -/
  tables : NativeTables
  /-- Known sequences, oldest admission first. -/
  admissionOrder : List SequenceId
  /-- Sequences evicted since construction. -/
  preemptions : ℕ
  /-- Tokens lost to preemption since construction. -/
  recomputedTokens : ℕ

/-- A call on the native manager. -/
abbrev NativeM := EStateM NativeError NativeManager

namespace NativeManager

/-- The constructor. -/
def create (blockCount blockSize : ℕ) (policy : PreemptionPolicy) :
    Except NativeError NativeManager :=
  match NativeAllocator.create blockCount blockSize with
  | .error e => .error e
  | .ok allocator => .ok ⟨allocator,blockSize,policy,∅,[],0,0⟩

/-- Number of blocks no sequence holds. -/
def freeBlocks (s : NativeManager) : ℕ := s.allocator.freeBlocks

/-- Number of known sequences. -/
def activeSequences (s : NativeManager) : ℕ := s.tables.keys.card

/-- Tokens a sequence holds; none when it is unknown. -/
def tokensHeld (s : NativeManager) (sequence : SequenceId) : ℕ :=
  match s.tables.lookup sequence with
  | none => 0
  | some table => table.tokens

/-- Blocks a sequence holds; none when it is unknown. -/
def blocksHeld (s : NativeManager) (sequence : SequenceId) : ℕ :=
  match s.tables.lookup sequence with
  | none => 0
  | some table => table.blocks.length

/-- Physical block and offset of a token of a known sequence. -/
def locate (s : NativeManager) (sequence : SequenceId) (tokenIndex : ℕ) :
    Except NativeError (BlockId×ℕ) :=
  match s.tables.lookup sequence with
  | none => .error (.invalidArgument "KVCacheManager::locate on an unknown sequence")
  | some table => nativeLocate table tokenIndex

/-- Blocks a sequence needs beyond those it holds. Rounding up adds before it
divides, and the sum is a `size_t`. -/
def additionalBlocksFor (s : NativeManager) (sequence : SequenceId) (tokens : ℕ) : ℕ :=
  match s.tables.lookup sequence with
  | none => word64 (tokens+s.blockSize-1)/s.blockSize
  | some table =>
    let wanted := word64 (table.tokens+tokens)
    if wanted≤nativeCapacity table then 0
    else word64 (wanted-nativeCapacity table+s.blockSize-1)/s.blockSize

/-- The newest-first walk over the reversed admission order. -/
def scanNewest (s : NativeManager) (requester : SequenceId) :
    List SequenceId → Option SequenceId
  | [] => none
  | candidate::rest =>
    if candidate=requester then s.scanNewest requester rest
    else
      match s.tables.lookup candidate with
      | some table =>
        if table.blocks=[] then s.scanNewest requester rest else some candidate
      | none => s.scanNewest requester rest

/-- The largest-first walk, with the running victim and its size. -/
def scanLargest (s : NativeManager) (requester : SequenceId) :
    List SequenceId → Option SequenceId → ℕ → Option SequenceId
  | [],victim,_ => victim
  | candidate::rest,victim,most =>
    if candidate=requester then s.scanLargest requester rest victim most
    else
      match s.tables.lookup candidate with
      | none => s.scanLargest requester rest victim most
      | some table =>
        let held := table.blocks.length
        if most<held then s.scanLargest requester rest (some candidate) held
        else s.scanLargest requester rest victim most

/-- The policy's next victim, never the requester. -/
def chooseVictim (s : NativeManager) (requester : SequenceId) : Option SequenceId :=
  match s.policy with
  | .newest => s.scanNewest requester s.admissionOrder.reverse
  | .largest => s.scanLargest requester s.admissionOrder none 0

/-- One entry's share of the reclaimable blocks. -/
def addReclaimable (requester : SequenceId) (total : ℕ) (sequence : SequenceId)
    (table : SequenceBlockTable) : ℕ :=
  if sequence≠requester then word64 (total+table.blocks.length) else total

/-- The running total does not depend on the order of the entries. -/
theorem addReclaimable_comm (requester : SequenceId) (total : ℕ)
    (a₁ : SequenceId) (t₁ : SequenceBlockTable) (a₂ : SequenceId) (t₂ : SequenceBlockTable) :
    addReclaimable requester (addReclaimable requester total a₁ t₁) a₂ t₂=
      addReclaimable requester (addReclaimable requester total a₂ t₂) a₁ t₁ := by
  unfold addReclaimable word64
  split_ifs <;> omega

/-- Blocks that could be reclaimed by evicting everything but the requester. -/
def reclaimableBlocks (s : NativeManager) (requester : SequenceId) : ℕ :=
  s.tables.foldl (addReclaimable requester) (fun d a b a' b' =>
    addReclaimable_comm requester d a b a' b') 0

/-- Return blocks to the pool one at a time. -/
def releaseBlocks : List BlockId → NativeM Unit
  | [] => pure ()
  | block::rest => do
    let s ← get
    let allocator ← raising (s.allocator.release block)
    set {s with allocator := allocator}
    releaseBlocks rest

/-- Reset a sequence's table, keeping the sequence known: what `preempt` does
and what one turn of the eviction loop does. -/
def reclaim (sequence : SequenceId) (table : SequenceBlockTable) : NativeM Unit := do
  releaseBlocks table.blocks
  modify (fun s => {s with
    recomputedTokens := word64 (s.recomputedTokens+table.tokens)
    preemptions := word64 (s.preemptions+1)
    tables := s.tables.insert sequence (.create sequence s.blockSize)})

/-- The eviction loop, bounded by the number of known sequences. -/
def evictLoop (needed : ℕ) (requester : SequenceId) : ℕ → NativeM (List SequenceId)
  | 0 => pure []
  | turns+1 => do
    let s ← get
    if s.freeBlocks<needed then
      match s.chooseVictim requester with
      | none => pure []
      | some victim =>
        match s.tables.lookup victim with
        | none => throw (.outOfRange "_Map_base::at")
        | some table => do
          reclaim victim table
          let evicted ← evictLoop needed requester turns
          pure (victim::evicted)
    else pure []

/-- Evict until enough blocks are free, or nothing when that cannot be met. -/
def evictUntil (needed : ℕ) (requester : SequenceId) : NativeM (List SequenceId) := do
  let s ← get
  if word64 (s.freeBlocks+s.reclaimableBlocks requester)<needed then pure []
  else evictLoop needed requester s.tables.keys.card

/-- Give a table `needed` fresh blocks, one at a time. -/
def appendBlocks (sequence : SequenceId) : ℕ → SequenceBlockTable → NativeM SequenceBlockTable
  | 0,table => pure table
  | needed+1,table => do
    let s ← get
    match s.allocator.allocate with
    | (none,_) => throw (.runtimeError "KVCacheManager: allocation failed after reservation")
    | (some block,allocator) => do
      let grown := table.appendBlock block
      set {s with allocator := allocator, tables := s.tables.insert sequence grown}
      appendBlocks sequence needed grown

/-- Make an unknown sequence known, with an empty table and the newest
admission. -/
def register (sequence : SequenceId) (s : NativeManager) : NativeManager :=
  if sequence∈s.tables then s
  else {s with
    tables := s.tables.insert sequence (.create sequence s.blockSize)
    admissionOrder := s.admissionOrder++[sequence]}

/-- Evict if the free blocks do not cover the need. -/
def makeRoom (needed : ℕ) (sequence : SequenceId) : NativeM AdmissionOutcome := do
  let s ← get
  if s.freeBlocks<needed then
    let preempted ← evictUntil needed sequence
    let s ← get
    if s.freeBlocks<needed then pure ⟨.insufficientCache,preempted⟩
    else pure ⟨.preemptedOthers,preempted⟩
  else pure {}

/-- The common body of the two reservation calls. -/
def reserve (sequence : SequenceId) (tokens : ℕ) (creating : Bool) :
    NativeM AdmissionOutcome :=
  if tokens=0 then pure {}
  else do
    modify (fun s => if creating then s.register sequence else s)
    let s ← get
    match s.tables.lookup sequence with
    | none => throw (.invalidArgument "KVCacheManager: sequence is not admitted")
    | some table => do
      let needed := s.additionalBlocksFor sequence tokens
      if s.allocator.totalBlocks<needed then pure ⟨.insufficientCache,[]⟩
      else do
        let outcome ← makeRoom needed sequence
        if outcome.ok then
          let grown ← appendBlocks sequence needed table
          let filled ← raising (nativeAddTokens grown tokens)
          modify (fun s => {s with tables := s.tables.insert sequence filled})
          pure outcome
        else pure outcome

/-- Reserve cache for a sequence, making it known first. -/
def admitSequence (sequence : SequenceId) (tokens : ℕ) : NativeM AdmissionOutcome :=
  reserve sequence tokens true

/-- Grow a known sequence. -/
def extend (sequence : SequenceId) (tokens : ℕ) : NativeM AdmissionOutcome :=
  reserve sequence tokens false

/-- Evict a sequence on request, keeping it known. -/
def preempt (sequence : SequenceId) : NativeM ℕ := do
  let s ← get
  match s.tables.lookup sequence with
  | none => pure 0
  | some table =>
    if table.blocks.length=0 then pure 0
    else do
      reclaim sequence table
      pure table.blocks.length

/-- Forget a sequence entirely. -/
def release (sequence : SequenceId) : NativeM Unit := do
  let s ← get
  match s.tables.lookup sequence with
  | none => pure ()
  | some table => do
    releaseBlocks table.blocks
    modify (fun s => {s with
      tables := s.tables.erase sequence
      admissionOrder := s.admissionOrder.filter (fun other => decide (other≠sequence))})

end NativeManager

/-- Make one call on the native manager. -/
def runNative : CacheCall → NativeM CacheReply
  | .admitSequence sequence tokens => do
    let outcome ← NativeManager.admitSequence sequence tokens
    pure (.outcome outcome)
  | .extend sequence tokens => do
    let outcome ← NativeManager.extend sequence tokens
    pure (.outcome outcome)
  | .preempt sequence => do
    let blocks ← NativeManager.preempt sequence
    pure (.reclaimed blocks)
  | .release sequence => do
    NativeManager.release sequence
    pure .released

end CudaForge.CacheNative
