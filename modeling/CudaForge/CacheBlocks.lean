import CudaForge.ExceptionState
import CudaForge.PythonBuiltins

/-!
# Block pool and block tables of the paged cache

`BlockAllocator` hands out physical blocks from a stack and counts the
references to each; `SequenceBlockTable` maps the tokens of one sequence to
the blocks it holds. An allocator whose counts agree with its free stack is
determined by that stack, and on such allocators every call has one explicit
result. Utilisation figures are not modelled: no decision reads them.
-/

namespace CudaForge.CacheBlocks

open ExceptionState PythonBuiltins

/-- Identifier of a physical block. -/
abbrev BlockId := ℕ

/-- Identifier of a sequence being served. -/
abbrev SequenceId := ℕ

/-- A fixed pool of reference-counted blocks. -/
structure BlockAllocator where
  /-- Number of physical blocks. -/
  total : ℕ
  /-- Tokens that one block holds. -/
  blockSize : ℕ
  /-- Free blocks with the next one to hand out first; the source appends to
  and pops from the other end of its list. -/
  free : List BlockId
  /-- Reference count of every block, by block. -/
  references : List ℕ
  deriving DecidableEq

namespace BlockAllocator

/-- The constructor. The free list is built so that block 0 goes out first. -/
def create (blockCount blockSize : ℕ) : Except PyError BlockAllocator :=
  if blockCount=0 then .error (.valueError s!"block_count must be positive, got {blockCount}")
  else if blockSize=0 then .error (.valueError s!"block_size must be positive, got {blockSize}")
  else .ok ⟨blockCount,blockSize,List.range blockCount,List.replicate blockCount 0⟩

/-- Number of physical blocks, free or not. -/
def totalBlocks (a : BlockAllocator) : ℕ := a.total

/-- Number of blocks on the free list. -/
def freeBlocks (a : BlockAllocator) : ℕ := a.free.length

/-- Number of blocks handed out. -/
def usedBlocks (a : BlockAllocator) : ℕ := a.total-a.free.length

/-- Take a free block, or nothing when the pool is exhausted. -/
def allocate (a : BlockAllocator) : Option BlockId×BlockAllocator :=
  match a.free with
  | [] => (none,a)
  | block::rest => (some block,{a with free := rest, references := a.references.set block 1})

/-- Add a reference. No check that the block is in use. -/
def addReference (a : BlockAllocator) (block : BlockId) : Except PyError BlockAllocator :=
  match a.references[block]? with
  | none => .error listIndexError
  | some count => .ok {a with references := a.references.set block (count+1)}

/-- Drop a reference. A block without references is left alone; the last
reference puts the block back on the free list. -/
def release (a : BlockAllocator) (block : BlockId) : Except PyError BlockAllocator :=
  match a.references[block]? with
  | none => .error listIndexError
  | some 0 => .ok a
  | some (count+1) => .ok {a with
      references := a.references.set block count
      free := if count=0 then block::a.free else a.free}

/-- The reference count of a block. -/
def referenceCount (a : BlockAllocator) (block : BlockId) : Except PyError ℕ :=
  match a.references[block]? with
  | none => .error listIndexError
  | some count => .ok count

/-- False when another sequence shares the block. -/
def isWritable (a : BlockAllocator) (block : BlockId) : Except PyError Bool :=
  match a.references[block]? with
  | none => .error listIndexError
  | some count => .ok (decide (count≤1))

end BlockAllocator

/-- Reference counts of a pool in which the blocks of `free` have no holder
and every other block has exactly one. -/
def exclusiveCounts (total : ℕ) (free : List BlockId) : List ℕ :=
  (List.range total).map (fun block => if block∈free then 0 else 1)

/-- The pool with no shared block whose free stack is `free`. -/
def exclusivePool (total blockSize : ℕ) (free : List BlockId) : BlockAllocator :=
  ⟨total,blockSize,free,exclusiveCounts total free⟩

/-- Counts of an exclusive pool, read at a block of the pool. -/
theorem exclusiveCounts_get {total block : ℕ} (hb : block<total) (free : List BlockId) :
    (exclusiveCounts total free)[block]?=some (if block∈free then 0 else 1) := by
  simp only [exclusiveCounts,List.getElem?_map,List.getElem?_range hb,Option.map_some]

/-- Taking a block off the free stack raises exactly its own count. -/
theorem exclusiveCounts_pop {total block : ℕ} {rest : List BlockId} (hb : block∉rest) :
    (exclusiveCounts total (block::rest)).set block 1=exclusiveCounts total rest := by
  apply List.ext_getElem
  · simp only [exclusiveCounts,List.length_set,List.length_map]
  · intro i hi _
    simp only [exclusiveCounts,List.getElem_set,List.getElem_map,List.getElem_range,List.mem_cons]
    by_cases he : block=i
    · subst he
      rw [if_pos rfl,if_neg hb]
    · have hn : i≠block := fun h => he h.symm
      simp only [if_neg he,hn,false_or]

/-- Putting a block back on the free stack clears exactly its own count. -/
theorem exclusiveCounts_push (total block : ℕ) (free : List BlockId) :
    (exclusiveCounts total free).set block 0=exclusiveCounts total (block::free) := by
  apply List.ext_getElem
  · simp only [exclusiveCounts,List.length_set,List.length_map]
  · intro i hi _
    simp only [exclusiveCounts,List.getElem_set,List.getElem_map,List.getElem_range,List.mem_cons]
    by_cases he : block=i
    · subst he
      simp only [if_true,true_or]
    · have hn : i≠block := fun h => he h.symm
      simp only [if_neg he,hn,false_or]

/-- A new pool is exclusive, with every block free. -/
theorem create_eq {blockCount blockSize : ℕ} (hn : 0<blockCount) (hs : 0<blockSize) :
    BlockAllocator.create blockCount blockSize=
      .ok (exclusivePool blockCount blockSize (List.range blockCount)) := by
  have hc : List.replicate blockCount 0=exclusiveCounts blockCount (List.range blockCount) := by
    apply List.ext_getElem
    · simp only [exclusiveCounts,List.length_replicate,List.length_map,List.length_range]
    · intro i hi _
      rw [List.length_replicate] at hi
      simp only [exclusiveCounts,List.getElem_replicate,List.getElem_map,List.getElem_range,
        List.mem_range,hi,if_true]
  unfold BlockAllocator.create
  rw [if_neg (by omega),if_neg (by omega),hc]
  rfl

/-- Allocation from an exclusive pool pops its stack and stays exclusive. -/
theorem allocate_exclusive (total blockSize : ℕ) {block : ℕ} {rest : List BlockId}
    (hb : block∉rest) :
    (exclusivePool total blockSize (block::rest)).allocate=
      (some block,exclusivePool total blockSize rest) := by
  simp only [exclusivePool,BlockAllocator.allocate,exclusiveCounts_pop hb]

/-- Release of a held block pushes it on the stack and stays exclusive. -/
theorem release_exclusive (blockSize : ℕ) {total block : ℕ} {free : List BlockId}
    (hb : block<total) (hf : block∉free) :
    (exclusivePool total blockSize free).release block=
      .ok (exclusivePool total blockSize (block::free)) := by
  have hg := exclusiveCounts_get hb free
  rw [if_neg hf] at hg
  simp only [exclusivePool,BlockAllocator.release,hg,exclusiveCounts_push,if_true]

/-- One sequence's logical-to-physical block mapping. -/
structure SequenceBlockTable where
  /-- The sequence the table belongs to. -/
  sequenceId : SequenceId
  /-- Tokens that one block holds. -/
  blockSize : ℕ
  /-- Tokens recorded so far. -/
  tokens : ℕ
  /-- Physical blocks in logical order. -/
  blocks : List BlockId
  deriving DecidableEq

namespace SequenceBlockTable

/-- A table holding nothing. -/
def create (sequenceId : SequenceId) (blockSize : ℕ) : SequenceBlockTable :=
  ⟨sequenceId,blockSize,0,[]⟩

/-- Tokens recorded so far. -/
def tokenCount (t : SequenceBlockTable) : ℕ := t.tokens

/-- Tokens that fit in the blocks held. -/
def capacity (t : SequenceBlockTable) : ℕ := t.blocks.length*t.blockSize

/-- Unused slots in the final block. -/
def slack (t : SequenceBlockTable) : ℕ := t.capacity-t.tokens

/-- Hold one more block, at the end of the logical order. -/
def appendBlock (t : SequenceBlockTable) (block : BlockId) : SequenceBlockTable :=
  {t with blocks := t.blocks++[block]}

/-- Record more tokens; they must fit in the blocks held. -/
def addTokens (t : SequenceBlockTable) (count : ℕ) : Except PyError SequenceBlockTable :=
  if t.capacity<t.tokens+count then
    .error (.valueError (s!"sequence {t.sequenceId}: {count} tokens exceed capacity " ++
      s!"{t.capacity} (holding {t.tokens}) — allocate first"))
  else .ok {t with tokens := t.tokens+count}

/-- Physical block holding a token, and its offset within it. -/
def locate (t : SequenceBlockTable) (tokenIndex : ℕ) : Except PyError (BlockId×ℕ) :=
  if t.tokens≤tokenIndex then
    .error (.indexError s!"token {tokenIndex} beyond the {t.tokens} this sequence holds")
  else
    match t.blocks[tokenIndex/t.blockSize]? with
    | none => .error listIndexError
    | some block => .ok (block,tokenIndex%t.blockSize)

end SequenceBlockTable

end CudaForge.CacheBlocks
