import Mathlib.Algebra.Order.Floor.Div
import Mathlib.Data.List.AList
import CudaForge.CacheBlocks

/-!
# The paged cache manager

Admission, extension, preemption and release over one block pool, as
`KVCacheManager` computes them. Every public call holds the manager's lock
from start to end, so a call is one state transition. The tables are a
Python dictionary; its order is never observed, and an association list
with distinct keys stands for it. An exception leaves what the call had
already assigned.
-/

namespace CudaForge.CacheManager

open ExceptionState PythonBuiltins CacheBlocks

/-- Which sequence to evict when the cache is full. -/
inductive PreemptionPolicy where
  /-- The most recently admitted sequence. -/
  | newest
  /-- Whichever sequence holds the most blocks. -/
  | largest
  deriving DecidableEq,Repr

/-- What happened to a request for cache. -/
inductive AdmissionResult where
  | admitted
  | preemptedOthers
  | insufficientCache
  deriving DecidableEq,Repr

/-- Result of `admitSequence` or `extend`. -/
structure AdmissionOutcome where
  /-- Whether the tokens were reserved, and whether others paid for it. -/
  result : AdmissionResult := .admitted
  /-- Sequences evicted to make room, in the order they were chosen. -/
  preempted : List SequenceId := []
  deriving DecidableEq,Repr

/-- The reservation was made. -/
def AdmissionOutcome.ok (outcome : AdmissionOutcome) : Bool :=
  decide (outcome.result≠.insufficientCache)

/-- Ceiling division as the source writes it: a negated floor division of
unbounded integers. -/
def pyCeilDiv (count size : ℕ) : ℕ := (-(Int.fdiv (-(count : ℤ)) (size : ℤ))).toNat

/-- Block tables by sequence id. -/
abbrev Tables := AList (fun _ : SequenceId => SequenceBlockTable)

/-- The manager's fields; the lock is not one of them. -/
structure KVCacheManager where
  /-- The block pool. -/
  allocator : BlockAllocator
  /-- Tokens that one block holds. -/
  blockSize : ℕ
  /-- Whom to evict when the pool is empty. -/
  policy : PreemptionPolicy
  /-- Every known sequence, holding blocks or not. -/
  tables : Tables
  /-- Known sequences, oldest admission first. -/
  admissionOrder : List SequenceId
  /-- Sequences preempted since construction. -/
  preemptions : ℕ
  /-- Tokens lost to preemption since construction. -/
  recomputedTokens : ℕ
  deriving DecidableEq

/-- A call on the manager. -/
abbrev CacheM := EStateM PyError KVCacheManager

namespace KVCacheManager

/-- The constructor. -/
def create (blockCount blockSize : ℕ) (policy : PreemptionPolicy) :
    Except PyError KVCacheManager :=
  match BlockAllocator.create blockCount blockSize with
  | .error e => .error e
  | .ok allocator => .ok ⟨allocator,blockSize,policy,∅,[],0,0⟩

/-- Number of physical blocks. -/
def totalBlocks (s : KVCacheManager) : ℕ := s.allocator.totalBlocks

/-- Number of blocks no sequence holds. -/
def freeBlocks (s : KVCacheManager) : ℕ := s.allocator.freeBlocks

/-- Number of known sequences. -/
def activeSequences (s : KVCacheManager) : ℕ := s.tables.entries.length

/-- Whether a sequence is known. -/
def isAdmitted (s : KVCacheManager) (sequence : SequenceId) : Bool := decide (sequence∈s.tables)

/-- Tokens a sequence holds; none when it is unknown. -/
def tokensHeld (s : KVCacheManager) (sequence : SequenceId) : ℕ :=
  match s.tables.lookup sequence with
  | none => 0
  | some table => table.tokenCount

/-- Blocks a sequence holds; none when it is unknown. -/
def blocksHeld (s : KVCacheManager) (sequence : SequenceId) : ℕ :=
  match s.tables.lookup sequence with
  | none => 0
  | some table => table.blocks.length

/-- Physical block and offset of a token of a known sequence. -/
def locate (s : KVCacheManager) (sequence : SequenceId) (tokenIndex : ℕ) :
    Except PyError (BlockId×ℕ) :=
  match s.tables.lookup sequence with
  | none => .error (.keyError s!"locate on unknown sequence {sequence}")
  | some table => table.locate tokenIndex

/-- Blocks a sequence needs beyond those it holds. -/
def additionalBlocksFor (s : KVCacheManager) (sequence : SequenceId) (tokens : ℕ) : ℕ :=
  match s.tables.lookup sequence with
  | none => pyCeilDiv tokens s.blockSize
  | some table =>
    let wanted := table.tokenCount+tokens
    if wanted≤table.capacity then 0 else pyCeilDiv (wanted-table.capacity) s.blockSize

/-- A candidate the newest-first scan may stop at: not the requester, known,
and holding blocks. -/
def evictable (s : KVCacheManager) (requester candidate : SequenceId) : Bool :=
  if candidate=requester then false
  else
    match s.tables.lookup candidate with
    | none => false
    | some table => !table.blocks.isEmpty

/-- The largest-first scan, with the best candidate so far and its size.
The comparison is strict, so the earliest admitted wins a tie. -/
def scanLargest (s : KVCacheManager) (requester : SequenceId) :
    List SequenceId → Option SequenceId → ℕ → Option SequenceId
  | [],victim,_ => victim
  | candidate::rest,victim,most =>
    if candidate=requester then s.scanLargest requester rest victim most
    else
      match s.tables.lookup candidate with
      | none => s.scanLargest requester rest victim most
      | some table =>
        if most<table.blocks.length then
          s.scanLargest requester rest (some candidate) table.blocks.length
        else s.scanLargest requester rest victim most

/-- The policy's next victim, never the requester. -/
def chooseVictim (s : KVCacheManager) (requester : SequenceId) : Option SequenceId :=
  match s.policy with
  | .newest => s.admissionOrder.reverse.find? (s.evictable requester)
  | .largest => s.scanLargest requester s.admissionOrder none 0

/-- Blocks that evicting everyone but the requester would free. -/
def reclaimableBlocks (s : KVCacheManager) (requester : SequenceId) : ℕ :=
  ((s.tables.entries.filter (fun e => decide (e.1≠requester))).map
    (fun e => e.2.blocks.length)).sum

/-- Return blocks to the pool one at a time. -/
def releaseBlocks : List BlockId → CacheM Unit
  | [] => pure ()
  | block::rest => do
    let s ← get
    let allocator ← raising (s.allocator.release block)
    set {s with allocator := allocator}
    releaseBlocks rest

/-- Empty a sequence's table, keeping the sequence known: what `preempt` does
and what one turn of the eviction loop does. -/
def reclaim (sequence : SequenceId) (table : SequenceBlockTable) : CacheM Unit := do
  releaseBlocks table.blocks
  modify (fun s => {s with
    recomputedTokens := s.recomputedTokens+table.tokenCount
    preemptions := s.preemptions+1
    tables := s.tables.insert sequence (.create sequence s.blockSize)})

/-- The eviction loop. `turns` bounds the number of evictions; the caller
passes one for each known sequence, and no turn evicts the same one twice. -/
def evictLoop (needed : ℕ) (requester : SequenceId) : ℕ → CacheM (List SequenceId)
  | 0 => pure []
  | turns+1 => do
    let s ← get
    if s.freeBlocks<needed then
      match s.chooseVictim requester with
      | none => pure []
      | some victim =>
        match s.tables.lookup victim with
        | none => throw (.keyError s!"{victim}")
        | some table => do
          reclaim victim table
          let evicted ← evictLoop needed requester turns
          pure (victim::evicted)
    else pure []

/-- Evict until enough blocks are free, or evict nothing when even evicting
everyone else would not do. -/
def evictUntil (needed : ℕ) (requester : SequenceId) : CacheM (List SequenceId) := do
  let s ← get
  if s.freeBlocks+s.reclaimableBlocks requester<needed then pure []
  else evictLoop needed requester s.tables.entries.length

/-- Give a table `needed` fresh blocks, one at a time. -/
def appendBlocks (sequence : SequenceId) : ℕ → SequenceBlockTable → CacheM SequenceBlockTable
  | 0,table => pure table
  | needed+1,table => do
    let s ← get
    match s.allocator.allocate with
    | (none,_) => throw (.runtimeError "allocation failed after the free count was checked")
    | (some block,allocator) => do
      let grown := table.appendBlock block
      set {s with allocator := allocator, tables := s.tables.insert sequence grown}
      appendBlocks sequence needed grown

/-- Make an unknown sequence known, with an empty table and the newest
admission. -/
def register (sequence : SequenceId) (s : KVCacheManager) : KVCacheManager :=
  if sequence∈s.tables then s
  else {s with
    tables := s.tables.insert sequence (.create sequence s.blockSize)
    admissionOrder := s.admissionOrder++[sequence]}

/-- Evict if the free blocks do not cover the need. -/
def makeRoom (needed : ℕ) (sequence : SequenceId) : CacheM AdmissionOutcome := do
  let s ← get
  if s.freeBlocks<needed then
    let preempted ← evictUntil needed sequence
    let s ← get
    if s.freeBlocks<needed then pure ⟨.insufficientCache,preempted⟩
    else pure ⟨.preemptedOthers,preempted⟩
  else pure {}

/-- The common body of `admitSequence` and `extend`. -/
def reserve (sequence : SequenceId) (tokens : ℕ) (creating : Bool) : CacheM AdmissionOutcome :=
  if tokens=0 then pure {}
  else do
    modify (fun s => if creating then s.register sequence else s)
    let s ← get
    match s.tables.lookup sequence with
    | none => throw (.keyError s!"sequence {sequence} is not admitted")
    | some table => do
      let needed := s.additionalBlocksFor sequence tokens
      if s.totalBlocks<needed then pure ⟨.insufficientCache,[]⟩
      else do
        let outcome ← makeRoom needed sequence
        if outcome.ok then
          let grown ← appendBlocks sequence needed table
          let filled ← raising (grown.addTokens tokens)
          modify (fun s => {s with tables := s.tables.insert sequence filled})
          pure outcome
        else pure outcome

/-- Reserve cache for a sequence, making it known first. -/
def admitSequence (sequence : SequenceId) (tokens : ℕ) : CacheM AdmissionOutcome :=
  reserve sequence tokens true

/-- Grow a known sequence. -/
def extend (sequence : SequenceId) (tokens : ℕ) : CacheM AdmissionOutcome :=
  reserve sequence tokens false

/-- Return a sequence's blocks, keeping it known. -/
def preempt (sequence : SequenceId) : CacheM ℕ := do
  let s ← get
  match s.tables.lookup sequence with
  | none => pure 0
  | some table =>
    if table.blocks.isEmpty then pure 0
    else do
      reclaim sequence table
      pure table.blocks.length

/-- Finish with a sequence entirely. -/
def release (sequence : SequenceId) : CacheM Unit := do
  let s ← get
  match s.tables.lookup sequence with
  | none => pure ()
  | some table => do
    set {s with tables := s.tables.erase sequence}
    releaseBlocks table.blocks
    modify (fun s => {s with
      admissionOrder := s.admissionOrder.filter (fun other => decide (other≠sequence))})

end KVCacheManager

/-- A call of the public interface that may change the manager. -/
inductive CacheCall where
  | admitSequence (sequence : SequenceId) (tokens : ℕ)
  | extend (sequence : SequenceId) (tokens : ℕ)
  | preempt (sequence : SequenceId)
  | release (sequence : SequenceId)
  deriving DecidableEq

/-- What a call hands back to its caller. -/
inductive CacheReply where
  | outcome (outcome : AdmissionOutcome)
  | reclaimed (blocks : ℕ)
  | released
  deriving DecidableEq

/-- Make one call. -/
def CacheCall.run : CacheCall → CacheM CacheReply
  | .admitSequence sequence tokens => do
    let outcome ← KVCacheManager.admitSequence sequence tokens
    pure (.outcome outcome)
  | .extend sequence tokens => do
    let outcome ← KVCacheManager.extend sequence tokens
    pure (.outcome outcome)
  | .preempt sequence => do
    let blocks ← KVCacheManager.preempt sequence
    pure (.reclaimed blocks)
  | .release sequence => do
    KVCacheManager.release sequence
    pure .released

end CudaForge.CacheManager
