import CudaForge.CacheNative
import CudaForge.KeyedTables
import CudaForge.TransitionRuns

/-!
# The accounts of the memory pool

`MemoryPool` with its free lists, its live blocks and its statistics. A pointer
is a value of any type, a null pointer is `none`, and what the backend answers
is an argument of the call. Requests are of up to 2^63 bytes, what rounding up
to a power of two takes; figures of bytes are 64-bit words, and counts of calls
and of blocks, which no run brings near 2^64, are natural numbers. The
backend's own record of what it has handed out stands beside the pool: blocks
move between the live and the cached ones and are never in both.
-/

namespace CudaForge.MemoryAccounts

open TransitionRuns KeyedTables CacheNative

/-- `std::bit_ceil` up to `2^63`; from there on that has no value. -/
def bitCeil (n : ℕ) : ℕ := if n≤1 then 1 else 2^((n-1).log2+1)

/-- Subtraction of 64-bit words. -/
def wordSub (a b : ℕ) : ℕ := word64 (a+(2^64-word64 b))

/-- What a call on the pool may throw. -/
inductive PoolError where
  /-- The backend had no memory. -/
  | badAlloc
  /-- A precondition of the call does not hold. -/
  | invalidArgument (message : String)
  deriving DecidableEq,Repr

/-- `PoolStats`. -/
structure PoolStats where
  /-- Bytes obtained from the backend. -/
  bytesReserved : ℕ := 0
  /-- Bytes handed out to callers. -/
  bytesInUse : ℕ := 0
  /-- The largest value of these. -/
  peakBytesInUse : ℕ := 0
  /-- Calls to `allocate`. -/
  allocationCount : ℕ := 0
  /-- Blocks that the backend supplied. -/
  backendAllocations : ℕ := 0
  /-- Allocations served from a free list. -/
  reuseCount : ℕ := 0
  /-- Blocks given back by callers. -/
  freeCount : ℕ := 0
  /-- Blocks on the free lists. -/
  freeBlockCount : ℕ := 0
  deriving DecidableEq,Repr

/-- A block: its pointer and its size. -/
abbrev Block (P : Type) := P×ℕ

/-- The pool. -/
structure MemoryPool (P : Type) where
  /-- The smallest size class. -/
  minBlockBytes : ℕ
  /-- The free list of each size class, its back last. -/
  freeLists : AList (fun _ : ℕ => List P) := ∅
  /-- The size of every block that a caller holds. -/
  liveBlocks : AList (fun _ : P => ℕ) := ∅
  /-- The statistics. -/
  stats : PoolStats := {}

namespace MemoryPool

variable {P : Type}

/-- The constructor. -/
def create (minBlockBytes : ℕ) : Except PoolError (MemoryPool P) :=
  if minBlockBytes=0 then .error (.invalidArgument "min_block_bytes must be non-zero")
  else .ok {minBlockBytes := bitCeil minBlockBytes}

/-- `round_up`. -/
def roundUp (pool : MemoryPool P) (bytes : ℕ) : ℕ := max pool.minBlockBytes (bitCeil bytes)

/-- The free list of a size class. -/
def freeList (pool : MemoryPool P) (blockBytes : ℕ) : List P :=
  (pool.freeLists.lookup blockBytes).getD []

/-- The blocks on the free lists. -/
def cached (pool : MemoryPool P) : List (Block P) :=
  shares (fun blockBytes freeList => freeList.map (fun pointer => (pointer,blockBytes)))
    pool.freeLists

/-- The blocks that callers hold. -/
def live (pool : MemoryPool P) : List (Block P) :=
  shares (fun pointer blockBytes => [(pointer,blockBytes)]) pool.liveBlocks

/-- The free lists, all of them empty. -/
def cleared (freeLists : AList (fun _ : ℕ => List P)) : AList (fun _ : ℕ => List P) where
  entries := freeLists.entries.map (fun e => ⟨e.1,[]⟩)
  nodupKeys := by
    have hn := freeLists.nodupKeys
    rw [List.NodupKeys] at hn ⊢
    rw [List.keys,List.map_map]
    exact hn

/-- `trim`, with the blocks that the backend gets back. -/
def trim (pool : MemoryPool P) : List (Block P)×MemoryPool P :=
  (pool.cached,
    {pool with
      freeLists := cleared pool.freeLists
      stats := {pool.stats with
        bytesReserved := pool.cached.foldl (fun reserved block => wordSub reserved block.2)
          pool.stats.bytesReserved
        freeBlockCount := 0}})

variable [DecidableEq P]

/-- `note_checkout`. -/
def noteCheckout (pool : MemoryPool P) (pointer : P) (blockBytes : ℕ) : MemoryPool P :=
  let bytesInUse := word64 (pool.stats.bytesInUse+blockBytes)
  {pool with
    liveBlocks := pool.liveBlocks.insert pointer blockBytes
    stats := {pool.stats with
      bytesInUse := bytesInUse
      peakBytesInUse := max pool.stats.peakBytesInUse bytesInUse}}

/-- `allocate`, with what the backend answers if it is asked. -/
def allocate (pool : MemoryPool P) (answer : Option P) (bytes : ℕ) :
    Except PoolError (Option P)×MemoryPool P :=
  if bytes=0 then (.ok none,pool)
  else
    let blockBytes := pool.roundUp bytes
    let stats := {pool.stats with allocationCount := pool.stats.allocationCount+1}
    match (pool.freeList blockBytes).getLast? with
    | some pointer =>
      (.ok (some pointer),
        noteCheckout {pool with
          freeLists := pool.freeLists.insert blockBytes (pool.freeList blockBytes).dropLast
          stats := {stats with
            reuseCount := stats.reuseCount+1
            freeBlockCount := stats.freeBlockCount-1}} pointer blockBytes)
    | none =>
      let freeLists := pool.freeLists.insert blockBytes []
      match answer with
      | none => (.error .badAlloc,{pool with freeLists := freeLists, stats := stats})
      | some pointer =>
        (.ok (some pointer),
          noteCheckout {pool with
            freeLists := freeLists
            stats := {stats with
              backendAllocations := stats.backendAllocations+1
              bytesReserved := word64 (stats.bytesReserved+blockBytes)}} pointer blockBytes)

/-- `deallocate`. -/
def deallocate (pool : MemoryPool P) (pointer : Option P) :
    Except PoolError Unit×MemoryPool P :=
  match pointer with
  | none => (.ok (),pool)
  | some pointer =>
    match pool.liveBlocks.lookup pointer with
    | none =>
      (.error (.invalidArgument "MemoryPool::deallocate on a pointer it did not hand out"),pool)
    | some blockBytes =>
      (.ok (),
        {pool with
          freeLists := pool.freeLists.insert blockBytes (pool.freeList blockBytes++[pointer])
          liveBlocks := pool.liveBlocks.erase pointer
          stats := {pool.stats with
            bytesInUse := wordSub pool.stats.bytesInUse blockBytes
            freeCount := pool.stats.freeCount+1
            freeBlockCount := pool.stats.freeBlockCount+1}})

/-- Whether an allocation has to ask the backend. -/
def Asks (pool : MemoryPool P) (bytes : ℕ) : Prop :=
  bytes≠0 ∧ pool.freeList (pool.roundUp bytes)=[]

instance (pool : MemoryPool P) (bytes : ℕ) : Decidable (pool.Asks bytes) :=
  inferInstanceAs (Decidable (bytes≠0 ∧ _=[]))

end MemoryPool

open MemoryPool

/-- A call on the pool. -/
inductive Call (P : Type) where
  /-- An allocation, with what the backend answers if it is asked. -/
  | allocate (bytes : ℕ) (answer : Option P)
  /-- A block given back, or any other pointer. -/
  | deallocate (pointer : Option P)
  /-- The cached blocks go back to the backend. -/
  | trim
  deriving DecidableEq

/-- The sum of the sizes of some blocks. -/
def bytesOf {P : Type} (blocks : List (Block P)) : ℕ := (blocks.map Prod.snd).sum

/-- A pool with what stands beside it. -/
structure Episode (P : Type) where
  /-- The pool. -/
  pool : MemoryPool P
  /-- The blocks that the backend has handed out and not got back. -/
  outstanding : List (Block P) := []
  /-- Allocations that failed. -/
  failed : ℕ := 0
  /-- The live bytes at the start and after every call, the latest first. -/
  seen : List ℕ := [0]

namespace Episode

variable {P : Type} [DecidableEq P]

/-- What the backend promises: a block that it hands out is not out
already. -/
def Permitted (s : Episode P) : Call P → Prop
  | .allocate bytes (some pointer) =>
    s.pool.Asks bytes → pointer∉s.outstanding.map Prod.fst
  | _ => True

/-- One call. -/
def apply (s : Episode P) : Call P → Episode P
  | .allocate bytes answer =>
    let pool := (s.pool.allocate answer bytes).2
    { pool := pool
      outstanding :=
        match answer with
        | some pointer =>
          if s.pool.Asks bytes then (pointer,s.pool.roundUp bytes)::s.outstanding
          else s.outstanding
        | none => s.outstanding
      failed := if s.pool.Asks bytes ∧ answer=none then s.failed+1 else s.failed
      seen := bytesOf pool.live::s.seen }
  | .deallocate pointer =>
    let pool := (s.pool.deallocate pointer).2
    {s with pool := pool, seen := bytesOf pool.live::s.seen}
  | .trim =>
    let (returned,pool) := s.pool.trim
    { pool := pool
      outstanding := s.outstanding.filter (fun block => decide (block∉returned))
      failed := s.failed
      seen := bytesOf pool.live::s.seen }

end Episode

/-- The pool from its construction, under calls that the backend may answer. -/
def episodes (P : Type) [DecidableEq P] (minBlockBytes : ℕ) : Machine (Episode P) (Call P) where
  starts s := ∃ pool, create minBlockBytes=.ok pool ∧ s={pool := pool}
  steps s call t := s.Permitted call ∧ t=s.apply call

section Words

/-- Addition does not see an earlier reduction. -/
theorem word64_add (a b : ℕ) : word64 (word64 a+b)=word64 (a+b) := by
  unfold word64
  omega

/-- Subtraction takes back an addition. -/
theorem wordSub_add (a b : ℕ) : wordSub (word64 (a+b)) b=word64 a := by
  unfold wordSub word64
  omega

/-- What fits a word is kept. -/
theorem word64_of_lt {a : ℕ} (h : a<2^64) : word64 a=a := Nat.mod_eq_of_lt h

end Words

section Sizes

/-- Rounding up does not lose anything. -/
theorem le_bitCeil (n : ℕ) : n≤bitCeil n := by
  rw [bitCeil]
  split
  · assumption
  · have h := Nat.lt_log2_self (n:=n-1)
    omega

/-- It ends at a power of two. -/
theorem bitCeil_pow (n : ℕ) : ∃ k, bitCeil n=2^k := by
  rw [bitCeil]
  split
  · exact ⟨0,rfl⟩
  · exact ⟨_,rfl⟩

/-- A request that a word can round up has a block of at most `2^63` bytes. -/
theorem bitCeil_le {n : ℕ} (h : n≤2^63) : bitCeil n≤2^63 := by
  rw [bitCeil]
  split
  · exact Nat.one_le_two_pow
  · have hlog : (n-1).log2<63 := (Nat.log2_lt (by omega)).mpr (by omega)
    exact Nat.pow_le_pow_right (by decide) hlog

variable {P : Type} (pool : MemoryPool P) (bytes : ℕ)

/-- A block covers the request. -/
theorem le_roundUp : bytes≤pool.roundUp bytes := (le_bitCeil bytes).trans (le_max_right _ _)

/-- A block is no larger than `2^63` bytes. -/
theorem roundUp_le (hm : pool.minBlockBytes≤2^63) {bytes : ℕ} (hb : bytes≤2^63) :
    pool.roundUp bytes≤2^63 := max_le hm (bitCeil_le hb)

/-- A block is a power of two when the minimum is. -/
theorem roundUp_pow (h : ∃ k, pool.minBlockBytes=2^k) : ∃ k, pool.roundUp bytes=2^k := by
  rcases max_choice pool.minBlockBytes (bitCeil bytes) with hm|hm
  · exact h.imp (fun _ hk => hm.trans hk)
  · exact (bitCeil_pow bytes).imp (fun _ hk => hm.trans hk)

end Sizes

section Books

variable {P : Type} {live cached outstanding rest : List (Block P)} {floor failed : ℕ}
  {stats : PoolStats} {seen : List ℕ} {block : Block P}

@[simp] theorem bytesOf_cons (block : Block P) (blocks : List (Block P)) :
    bytesOf (block::blocks)=block.2+bytesOf blocks := List.sum_cons

/-- The order of blocks does not matter to their sum. -/
theorem bytesOf_perm {blocks others : List (Block P)} (h : blocks.Perm others) :
    bytesOf blocks=bytesOf others := (h.map Prod.snd).sum_eq

@[simp] theorem bytesOf_append (blocks others : List (Block P)) :
    bytesOf (blocks++others)=bytesOf blocks+bytesOf others := by
  rw [bytesOf,List.map_append,List.sum_append]
  rfl

/-- A figure that gives the bytes of some blocks takes one more into account. -/
theorem word64_raised {figure : ℕ} {blocks : List (Block P)}
    (h : figure=word64 (bytesOf blocks)) :
    word64 (figure+block.2)=word64 (bytesOf (block::blocks)) := by
  rw [h,word64_add,bytesOf_cons,Nat.add_comm]

/-- The books: where the blocks are, and what the figures say about them. The
peak is that of the live bytes as long as these fit a word. -/
structure Accounts (floor : ℕ) (live cached outstanding : List (Block P)) (stats : PoolStats)
    (failed : ℕ) (seen : List ℕ) : Prop where
  blocks : (live++cached).Perm outstanding
  distinct : (outstanding.map Prod.fst).Nodup
  sized : ∀ block∈outstanding, (∃ k, block.2=2^k) ∧ floor≤block.2
  inUse : stats.bytesInUse=word64 (bytesOf live)
  reserved : stats.bytesReserved=word64 (bytesOf outstanding)
  free : stats.freeBlockCount=cached.length
  counts : stats.allocationCount=stats.reuseCount+stats.backendAllocations+failed
  current : bytesOf live∈seen
  peak : (∀ bytes∈seen, bytes<2^64) →
    stats.peakBytesInUse∈seen ∧ ∀ bytes∈seen, bytes ≤ stats.peakBytesInUse

namespace Accounts

/-- No pointer is held twice. -/
theorem apart (h : Accounts floor live cached outstanding stats failed seen) :
    ((live++cached).map Prod.fst).Nodup :=
  (h.blocks.map Prod.fst).nodup_iff.mpr h.distinct

/-- The order of the cached blocks does not matter. -/
theorem perm_cached (h : Accounts floor live cached outstanding stats failed seen)
    (hp : cached.Perm rest) : Accounts floor live rest outstanding stats failed seen where
  blocks := (hp.append_left live).symm.trans h.blocks
  distinct := h.distinct
  sized := h.sized
  inUse := h.inUse
  reserved := h.reserved
  free := h.free.trans hp.length_eq
  counts := h.counts
  current := h.current
  peak := h.peak

/-- The live bytes did not grow, and the peak stands. -/
theorem peak_kept (h : Accounts floor live cached outstanding stats failed seen) {bytes : ℕ}
    (hle : bytes≤bytesOf live) (hfit : ∀ b∈bytes::seen, b<2^64) :
    stats.peakBytesInUse∈bytes::seen ∧ ∀ b∈bytes::seen, b ≤ stats.peakBytesInUse := by
  obtain ⟨hm,hmax⟩ := h.peak (fun b hb => hfit b (List.mem_cons_of_mem _ hb))
  refine ⟨List.mem_cons_of_mem _ hm,?_⟩
  intro b hb
  rcases List.mem_cons.mp hb with rfl|hb
  · exact hle.trans (hmax _ h.current)
  · exact hmax b hb

/-- More bytes are live, and the peak takes them into account. -/
theorem peak_raised (h : Accounts floor live cached outstanding stats failed seen) {bytes : ℕ}
    (hfit : ∀ b∈bytes::seen, b<2^64) :
    max stats.peakBytesInUse (word64 bytes)∈bytes::seen ∧
      ∀ b∈bytes::seen, b ≤ max stats.peakBytesInUse (word64 bytes) := by
  obtain ⟨hm,hmax⟩ := h.peak (fun b hb => hfit b (List.mem_cons_of_mem _ hb))
  rw [word64_of_lt (hfit bytes List.mem_cons_self)]
  refine ⟨?_,?_⟩
  · rcases max_choice stats.peakBytesInUse bytes with hc|hc
    · rw [hc]
      exact List.mem_cons_of_mem _ hm
    · rw [hc]
      exact List.mem_cons_self
  · intro b hb
    rcases List.mem_cons.mp hb with rfl|hb
    · exact le_max_right _ _
    · exact (hmax b hb).trans (le_max_left _ _)

/-- A call that did nothing. -/
theorem idle (h : Accounts floor live cached outstanding stats failed seen) :
    Accounts floor live cached outstanding stats failed (bytesOf live::seen) :=
  {h with
    current := List.mem_cons_self
    peak := h.peak_kept le_rfl}

/-- An allocation that failed is counted. -/
theorem refused (h : Accounts floor live cached outstanding stats failed seen) :
    Accounts floor live cached outstanding
      {stats with allocationCount := stats.allocationCount+1} (failed+1)
      (bytesOf live::seen) :=
  {h with
    counts := by
      rw [h.counts]
      rfl
    current := List.mem_cons_self
    peak := h.peak_kept le_rfl}

/-- A cached block is handed out. -/
theorem reused (h : Accounts floor live cached outstanding stats failed seen)
    (hp : cached.Perm (block::rest)) :
    Accounts floor (block::live) rest outstanding
      {stats with
        allocationCount := stats.allocationCount+1
        reuseCount := stats.reuseCount+1
        freeBlockCount := stats.freeBlockCount-1
        bytesInUse := word64 (stats.bytesInUse+block.2)
        peakBytesInUse := max stats.peakBytesInUse (word64 (stats.bytesInUse+block.2))}
      failed (bytesOf (block::live)::seen) where
  blocks := (List.perm_middle.symm.trans (hp.append_left live).symm).trans h.blocks
  distinct := h.distinct
  sized := h.sized
  inUse := word64_raised h.inUse
  reserved := h.reserved
  free := by
    rw [h.free,hp.length_eq]
    rfl
  counts := by
    have hc := h.counts
    simp only
    omega
  current := List.mem_cons_self
  peak := by
    rw [word64_raised h.inUse]
    exact h.peak_raised

/-- The backend supplies a block, which is handed out. -/
theorem supplied (h : Accounts floor live cached outstanding stats failed seen)
    (hnew : block.1∉outstanding.map Prod.fst)
    (hsize : (∃ k, block.2=2^k) ∧ floor≤block.2) :
    Accounts floor (block::live) cached (block::outstanding)
      {stats with
        allocationCount := stats.allocationCount+1
        backendAllocations := stats.backendAllocations+1
        bytesReserved := word64 (stats.bytesReserved+block.2)
        bytesInUse := word64 (stats.bytesInUse+block.2)
        peakBytesInUse := max stats.peakBytesInUse (word64 (stats.bytesInUse+block.2))}
      failed (bytesOf (block::live)::seen) where
  blocks := h.blocks.cons block
  distinct := List.nodup_cons.mpr ⟨hnew,h.distinct⟩
  sized := by
    intro other hm
    rcases List.mem_cons.mp hm with rfl|hm
    · exact hsize
    · exact h.sized other hm
  inUse := word64_raised h.inUse
  reserved := word64_raised h.reserved
  free := h.free
  counts := by
    have hc := h.counts
    simp only
    omega
  current := List.mem_cons_self
  peak := by
    rw [word64_raised h.inUse]
    exact h.peak_raised

/-- A caller gives a block back. -/
theorem freed (h : Accounts floor live cached outstanding stats failed seen)
    (hp : live.Perm (block::rest)) :
    Accounts floor rest (block::cached) outstanding
      {stats with
        bytesInUse := wordSub stats.bytesInUse block.2
        freeCount := stats.freeCount+1
        freeBlockCount := stats.freeBlockCount+1}
      failed (bytesOf rest::seen) where
  blocks := (List.perm_middle.trans (hp.append_right cached).symm).trans h.blocks
  distinct := h.distinct
  sized := h.sized
  inUse := by
    rw [h.inUse,bytesOf_perm hp,bytesOf_cons,Nat.add_comm]
    exact wordSub_add _ _
  reserved := h.reserved
  free := congrArg Nat.succ h.free
  counts := h.counts
  current := List.mem_cons_self
  peak := by
    refine h.peak_kept ?_
    rw [bytesOf_perm hp,bytesOf_cons]
    exact Nat.le_add_left _ _

/-- Subtracting block after block takes back their sum. -/
theorem foldl_wordSub (blocks : List (Block P)) (left : ℕ) :
    blocks.foldl (fun reserved block => wordSub reserved block.2) (word64 (left+bytesOf blocks))=
      word64 left := by
  induction blocks with
  | nil => rfl
  | cons block blocks ih =>
    rw [List.foldl_cons,bytesOf_cons,Nat.add_comm block.2,←Nat.add_assoc,wordSub_add]
    exact ih

variable [DecidableEq P]

/-- The cached blocks go back to the backend. -/
theorem trimmed (h : Accounts floor live cached outstanding stats failed seen) :
    Accounts floor live [] (outstanding.filter (fun block => decide (block∉cached)))
      {stats with
        bytesReserved := cached.foldl (fun reserved block => wordSub reserved block.2)
          stats.bytesReserved
        freeBlockCount := 0}
      failed (bytesOf live::seen) := by
  have hapart := List.nodup_append'.mp (h.apart.of_map _)
  have hlive : live.filter (fun block => decide (block∉cached))=live := by
    refine List.filter_eq_self.mpr ?_
    intro block hm
    exact decide_eq_true (fun hc => hapart.2.2 hm hc)
  have hcached : cached.filter (fun block => decide (block∉cached))=[] := by
    refine List.filter_eq_nil_iff.mpr ?_
    intro block hm
    simp only [hm,not_true,decide_false,Bool.false_eq_true,not_false_eq_true]
  have hblocks : live.Perm (outstanding.filter (fun block => decide (block∉cached))) := by
    have hp := h.blocks.filter (fun block => decide (block∉cached))
    rw [List.filter_append,hlive,hcached,List.append_nil] at hp
    exact hp
  exact {
    blocks := by
      rw [List.append_nil]
      exact hblocks
    distinct := h.distinct.sublist (List.filter_sublist.map _)
    sized := fun block hm => h.sized block (List.mem_of_mem_filter hm)
    inUse := h.inUse
    reserved := by
      rw [h.reserved,←bytesOf_perm h.blocks,bytesOf_append,←bytesOf_perm hblocks]
      exact foldl_wordSub cached (bytesOf live)
    free := rfl
    counts := h.counts
    current := List.mem_cons_self
    peak := h.peak_kept le_rfl}

end Accounts

end Books

section Pools

variable {P : Type} [DecidableEq P] {pool : MemoryPool P} {pointer : P} {blockBytes : ℕ}

/-- A block is live when the table gives its size. -/
theorem mem_live : (pointer,blockBytes)∈pool.live ↔
    pool.liveBlocks.lookup pointer=some blockBytes := by
  rw [live,mem_shares]
  constructor
  · rintro ⟨key,value,hl,hm⟩
    obtain ⟨rfl,rfl⟩ := Prod.mk.inj (List.mem_singleton.mp hm)
    exact hl
  · intro hl
    exact ⟨pointer,blockBytes,hl,List.mem_singleton_self _⟩

/-- A pointer without a live block is not in the table. -/
theorem notMem_liveBlocks (h : pointer∉pool.live.map Prod.fst) : pointer∉pool.liveBlocks := by
  intro hm
  obtain ⟨blockBytes,hl⟩ := Option.isSome_iff_exists.mp (AList.lookup_isSome.mpr hm)
  exact h (List.mem_map_of_mem (mem_live.mpr hl))

omit [DecidableEq P] in
/-- A block is cached when it is on the free list of its size. -/
theorem mem_cached : (pointer,blockBytes)∈pool.cached ↔ pointer∈pool.freeList blockBytes := by
  rw [cached,mem_shares,freeList]
  constructor
  · rintro ⟨size,pointers,hl,hm⟩
    obtain ⟨other,hp,he⟩ := List.mem_map.mp hm
    obtain ⟨rfl,rfl⟩ := Prod.mk.inj he
    rw [hl]
    exact hp
  · intro hm
    cases hl : pool.freeLists.lookup blockBytes with
    | none =>
      rw [hl] at hm
      exact absurd hm List.not_mem_nil
    | some pointers =>
      rw [hl] at hm
      exact ⟨blockBytes,pointers,hl,List.mem_map_of_mem hm⟩

omit [DecidableEq P] in
/-- One free list and the rest. -/
theorem cached_perm (pool : MemoryPool P) (blockBytes : ℕ) :
    pool.cached.Perm ((pool.freeList blockBytes).map (fun pointer => (pointer,blockBytes))++
      shares (fun blockBytes freeList => freeList.map (fun pointer => (pointer,blockBytes)))
        (pool.freeLists.erase blockBytes)) :=
  shares_perm_getD _ blockBytes rfl pool.freeLists

/-- A live block taken out of the table. -/
theorem live_erase (hl : pool.liveBlocks.lookup pointer=some blockBytes) :
    pool.live.Perm ((pointer,blockBytes)::
      shares (fun pointer blockBytes => [(pointer,blockBytes)])
        (pool.liveBlocks.erase pointer)) :=
  shares_perm_erase _ hl

/-- A live block entered in the table. -/
theorem live_insert (h : pointer∉pool.live.map Prod.fst) :
    shares (fun pointer blockBytes => [(pointer,blockBytes)])
      (pool.liveBlocks.insert pointer blockBytes)=(pointer,blockBytes)::pool.live := by
  rw [shares_insert,shares_erase_of_unknown _ (notMem_liveBlocks h)]
  rfl

omit [DecidableEq P] in
/-- Nothing is cached after a trim. -/
theorem cached_cleared (pool : MemoryPool P) : pool.trim.2.cached=[] := by
  change List.flatMap _ (List.map _ _)=[]
  rw [List.flatMap_map]
  exact List.flatMap_eq_nil_iff.mpr (fun _ _ => rfl)

/-- The pool after a cached block was handed out. -/
def reusing (pool : MemoryPool P) (pointer : P) (blockBytes : ℕ) : MemoryPool P :=
  noteCheckout {pool with
    freeLists := pool.freeLists.insert blockBytes (pool.freeList blockBytes).dropLast
    stats := {pool.stats with
      allocationCount := pool.stats.allocationCount+1
      reuseCount := pool.stats.reuseCount+1
      freeBlockCount := pool.stats.freeBlockCount-1}} pointer blockBytes

/-- The pool after the backend had no memory. -/
def refusing (pool : MemoryPool P) (blockBytes : ℕ) : MemoryPool P :=
  {pool with
    freeLists := pool.freeLists.insert blockBytes []
    stats := {pool.stats with allocationCount := pool.stats.allocationCount+1}}

/-- The pool after the backend supplied a block. -/
def obtaining (pool : MemoryPool P) (pointer : P) (blockBytes : ℕ) : MemoryPool P :=
  noteCheckout {pool with
    freeLists := pool.freeLists.insert blockBytes []
    stats := {pool.stats with
      allocationCount := pool.stats.allocationCount+1
      backendAllocations := pool.stats.backendAllocations+1
      bytesReserved := word64 (pool.stats.bytesReserved+blockBytes)}} pointer blockBytes

/-- The endings of an allocation. -/
inductive AllocateEffect (pool : MemoryPool P) (answer : Option P) (bytes : ℕ) :
    Except PoolError (Option P)×MemoryPool P → Prop
  /-- Nothing was asked for. -/
  | empty (hz : ¬pool.Asks bytes) (h0 : bytes=0) :
    AllocateEffect pool answer bytes (.ok none,pool)
  /-- The free list of the size class had a block. -/
  | reuse (pointer : P) (hz : ¬pool.Asks bytes)
    (hlist : pool.freeList (pool.roundUp bytes)=
      (pool.freeList (pool.roundUp bytes)).dropLast++[pointer]) :
    AllocateEffect pool answer bytes
      (.ok (some pointer),reusing pool pointer (pool.roundUp bytes))
  /-- It had none, and neither had the backend. -/
  | refuse (hz : pool.Asks bytes) (hn : answer=none) :
    AllocateEffect pool answer bytes (.error .badAlloc,refusing pool (pool.roundUp bytes))
  /-- It had none, and the backend supplied one. -/
  | obtain (pointer : P) (hz : pool.Asks bytes) (hn : answer=some pointer) :
    AllocateEffect pool answer bytes
      (.ok (some pointer),obtaining pool pointer (pool.roundUp bytes))

/-- Every allocation ends in one of these ways. -/
theorem allocate_effect (pool : MemoryPool P) (answer : Option P) (bytes : ℕ) :
    AllocateEffect pool answer bytes (pool.allocate answer bytes) := by
  by_cases h0 : bytes=0
  · rw [allocate,if_pos h0]
    exact .empty (fun hz => hz.1 h0) h0
  · cases hl : (pool.freeList (pool.roundUp bytes)).getLast? with
    | some pointer =>
      have hlist := (List.dropLast_append_getLast? pointer hl).symm
      have hz : ¬pool.Asks bytes := by
        intro hz
        rw [hz.2] at hlist
        exact absurd hlist (by simp)
      have he : pool.allocate answer bytes=
          (.ok (some pointer),reusing pool pointer (pool.roundUp bytes)) := by
        simp only [allocate]
        rw [if_neg h0,hl]
        rfl
      rw [he]
      exact .reuse pointer hz hlist
    | none =>
      have hz : pool.Asks bytes := ⟨h0,List.getLast?_eq_none_iff.mp hl⟩
      cases answer with
      | none =>
        have he : pool.allocate none bytes=
            (.error .badAlloc,refusing pool (pool.roundUp bytes)) := by
          simp only [allocate]
          rw [if_neg h0,hl]
          rfl
        rw [he]
        exact .refuse hz rfl
      | some pointer =>
        have he : pool.allocate (some pointer) bytes=
            (.ok (some pointer),obtaining pool pointer (pool.roundUp bytes)) := by
          simp only [allocate]
          rw [if_neg h0,hl]
          rfl
        rw [he]
        exact .obtain pointer hz rfl

/-- The pool after a caller gave a block back. -/
def freeing (pool : MemoryPool P) (pointer : P) (blockBytes : ℕ) : MemoryPool P :=
  {pool with
    freeLists := pool.freeLists.insert blockBytes (pool.freeList blockBytes++[pointer])
    liveBlocks := pool.liveBlocks.erase pointer
    stats := {pool.stats with
      bytesInUse := wordSub pool.stats.bytesInUse blockBytes
      freeCount := pool.stats.freeCount+1
      freeBlockCount := pool.stats.freeBlockCount+1}}

/-- A deallocation frees a live block or changes nothing. -/
theorem deallocate_effect (pool : MemoryPool P) (pointer : Option P) :
    (pool.deallocate pointer).2=pool ∨
      ∃ held blockBytes, pointer=some held ∧ pool.liveBlocks.lookup held=some blockBytes ∧
        pool.deallocate pointer=(.ok (),freeing pool held blockBytes) := by
  cases pointer with
  | none => exact Or.inl rfl
  | some held =>
    cases hl : pool.liveBlocks.lookup held with
    | none =>
      refine Or.inl ?_
      rw [deallocate,hl]
    | some blockBytes =>
      refine Or.inr ⟨held,blockBytes,rfl,hl,?_⟩
      rw [deallocate,hl]
      rfl

/-- The books of a pool. -/
def Booked (s : Episode P) : Prop :=
  Accounts s.pool.minBlockBytes s.pool.live s.pool.cached s.outstanding s.pool.stats s.failed
    s.seen

/-- A pool starts with empty books. -/
theorem booked_start {minBlockBytes : ℕ} {s : Episode P}
    (hs : (episodes P minBlockBytes).starts s) : Booked s := by
  obtain ⟨pool,hc,rfl⟩ := hs
  rw [create] at hc
  split at hc
  · cases hc
  · cases hc
    exact {
      blocks := List.Perm.nil
      distinct := List.nodup_nil
      sized := fun _ hm => absurd hm List.not_mem_nil
      inUse := rfl
      reserved := rfl
      free := rfl
      counts := rfl
      current := List.mem_singleton_self 0
      peak := fun _ => ⟨List.mem_singleton_self 0,fun _ hm => (List.mem_singleton.mp hm).le⟩}

/-- An allocation keeps the books. -/
theorem booked_allocate {s : Episode P} (h : Booked s)
    (hfloor : ∃ k, s.pool.minBlockBytes=2^k) {bytes : ℕ} {answer : Option P}
    (hp : s.Permitted (.allocate bytes answer)) :
    Booked (s.apply (.allocate bytes answer)) := by
  have he := allocate_effect s.pool answer bytes
  generalize hr : s.pool.allocate answer bytes=result at he
  cases he with
  | empty hz h0 =>
    have ha : s.apply (.allocate bytes answer)={s with seen := bytesOf s.pool.live::s.seen} := by
      simp only [Episode.apply,hr,hz,false_and,if_false]
      cases answer <;> rfl
    rw [ha]
    exact Accounts.idle h
  | reuse pointer hz hlist =>
    have ha : s.apply (.allocate bytes answer)=
        {s with
          pool := reusing s.pool pointer (s.pool.roundUp bytes)
          seen := bytesOf (reusing s.pool pointer (s.pool.roundUp bytes)).live::s.seen} := by
      simp only [Episode.apply,hr,hz,false_and,if_false]
      cases answer <;> rfl
    have hcached := cached_perm s.pool (s.pool.roundUp bytes)
    rw [hlist,List.map_append,List.append_assoc] at hcached
    replace hcached := hcached.trans List.perm_middle
    have hnew : pointer∉s.pool.live.map Prod.fst := by
      have hapart := Accounts.apart h
      rw [List.map_append] at hapart
      intro hm
      refine (List.nodup_append'.mp hapart).2.2 hm ?_
      exact (hcached.map Prod.fst).mem_iff.mpr List.mem_cons_self
    have hlive : (reusing s.pool pointer (s.pool.roundUp bytes)).live=
        (pointer,s.pool.roundUp bytes)::s.pool.live := live_insert hnew
    rw [ha,Booked,hlive]
    exact Accounts.reused h hcached
  | refuse hz hn =>
    subst hn
    have ha : s.apply (.allocate bytes none)=
        {s with
          pool := refusing s.pool (s.pool.roundUp bytes)
          failed := s.failed+1
          seen := bytesOf s.pool.live::s.seen} := by
      simp only [Episode.apply,hr,hz,true_and,if_true]
      rfl
    have hcached := cached_perm s.pool (s.pool.roundUp bytes)
    rw [hz.2] at hcached
    rw [ha]
    exact Accounts.perm_cached (Accounts.refused h) hcached
  | obtain pointer hz hn =>
    subst hn
    have ha : s.apply (.allocate bytes (some pointer))=
        {s with
          pool := obtaining s.pool pointer (s.pool.roundUp bytes)
          outstanding := (pointer,s.pool.roundUp bytes)::s.outstanding
          seen := bytesOf (obtaining s.pool pointer (s.pool.roundUp bytes)).live::s.seen} := by
      simp only [Episode.apply,hr,if_pos hz,reduceCtorEq,and_false,if_false]
    have hcached := cached_perm s.pool (s.pool.roundUp bytes)
    rw [hz.2] at hcached
    have hout : pointer∉s.outstanding.map Prod.fst := hp hz
    have hnew : pointer∉s.pool.live.map Prod.fst := by
      intro hm
      refine hout ((h.blocks.map Prod.fst).mem_iff.mp ?_)
      rw [List.map_append]
      exact List.mem_append_left _ hm
    have hlive : (obtaining s.pool pointer (s.pool.roundUp bytes)).live=
        (pointer,s.pool.roundUp bytes)::s.pool.live := live_insert hnew
    rw [ha,Booked,hlive]
    exact Accounts.perm_cached (Accounts.supplied h hout ⟨roundUp_pow _ _ hfloor,
      le_max_left _ _⟩) hcached

/-- A deallocation keeps the books. -/
theorem booked_deallocate {s : Episode P} (h : Booked s) (pointer : Option P) :
    Booked (s.apply (.deallocate pointer)) := by
  rcases deallocate_effect s.pool pointer with he|⟨held,blockBytes,rfl,hl,he⟩
  · have ha : s.apply (.deallocate pointer)={s with seen := bytesOf s.pool.live::s.seen} := by
      simp only [Episode.apply,he]
    rw [ha]
    exact Accounts.idle h
  · have ha : s.apply (.deallocate (some held))=
        {s with
          pool := freeing s.pool held blockBytes
          seen := bytesOf (freeing s.pool held blockBytes).live::s.seen} := by
      simp only [Episode.apply,he]
    have hcached : ((held,blockBytes)::s.pool.cached).Perm
        (freeing s.pool held blockBytes).cached := by
      have hc : (freeing s.pool held blockBytes).cached=
          (s.pool.freeList blockBytes++[held]).map (fun pointer => (pointer,blockBytes))++
            shares (fun blockBytes freeList => freeList.map (fun pointer => (pointer,blockBytes)))
              (s.pool.freeLists.erase blockBytes) := rfl
      rw [hc,List.map_append,List.append_assoc]
      exact ((cached_perm s.pool blockBytes).cons _).trans List.perm_middle.symm
    rw [ha]
    exact Accounts.perm_cached (Accounts.freed h (live_erase hl)) hcached

/-- A trim keeps the books. -/
theorem booked_trim {s : Episode P} (h : Booked s) : Booked (s.apply .trim) := by
  have ht := Accounts.trimmed h
  rw [←cached_cleared s.pool] at ht
  exact ht

/-- The size of the smallest class never changes. -/
theorem apply_minBlockBytes (s : Episode P) (call : Call P) :
    (s.apply call).pool.minBlockBytes=s.pool.minBlockBytes := by
  cases call with
  | allocate bytes answer =>
    have he := allocate_effect s.pool answer bytes
    change (s.pool.allocate answer bytes).2.minBlockBytes=_
    generalize s.pool.allocate answer bytes=result at he
    cases he <;> rfl
  | deallocate pointer =>
    change (s.pool.deallocate pointer).2.minBlockBytes=_
    rcases deallocate_effect s.pool pointer with he|⟨_,_,_,_,he⟩
    · rw [he]
    · rw [he]
      rfl
  | trim => rfl

/-- The books are kept in every run. -/
theorem reaches_booked {minBlockBytes : ℕ} {s : Episode P}
    (h : (episodes P minBlockBytes).Reaches s) :
    s.pool.minBlockBytes=bitCeil minBlockBytes ∧ Booked s := by
  refine h.invariant (P := fun s => s.pool.minBlockBytes=bitCeil minBlockBytes ∧ Booked s) ?_ ?_
  · intro s hs
    refine ⟨?_,booked_start hs⟩
    obtain ⟨pool,hc,rfl⟩ := hs
    rw [create] at hc
    split at hc
    · cases hc
    · cases hc
      rfl
  · rintro s call t ⟨hmin,hb⟩ ⟨hp,rfl⟩
    refine ⟨(apply_minBlockBytes s call).trans hmin,?_⟩
    cases call with
    | allocate bytes answer => exact booked_allocate hb (hmin ▸ bitCeil_pow _) hp
    | deallocate pointer => exact booked_deallocate hb pointer
    | trim => exact booked_trim hb

/-- A call asks for no more than can be rounded up. -/
def Sized : Call P → Prop
  | .allocate bytes _ => bytes≤2^63
  | _ => True

/-- The pool under calls that ask for no more than can be rounded up. -/
abbrev sizedEpisodes (P : Type) [DecidableEq P] (minBlockBytes : ℕ) :
    Machine (Episode P) (Call P) :=
  (episodes P minBlockBytes).guarded (fun _ call => Sized call)

/-- Under such calls every block has at most `2^63` bytes. -/
theorem reaches_words {minBlockBytes : ℕ} {s : Episode P} (hmin : minBlockBytes≤2^63)
    (h : (sizedEpisodes P minBlockBytes).Reaches s) :
    ∀ block∈s.outstanding, block.2≤2^63 := by
  refine (h.invariant (P := fun s => s.pool.minBlockBytes≤2^63 ∧
    ∀ block∈s.outstanding, block.2≤2^63) ?_ ?_).2
  · rintro s hs
    have hkept := (reaches_booked (.start hs)).1
    obtain ⟨pool,_,rfl⟩ := hs
    exact ⟨hkept ▸ bitCeil_le hmin,fun _ hm => absurd hm List.not_mem_nil⟩
  · rintro s call t ⟨hfloor,hwords⟩ ⟨hsized,_,rfl⟩
    refine ⟨(apply_minBlockBytes s call).symm ▸ hfloor,fun block hm => ?_⟩
    cases call with
    | allocate bytes answer =>
      cases answer with
      | none => exact hwords block hm
      | some pointer =>
        simp only [Episode.apply] at hm
        split at hm
        · rcases List.mem_cons.mp hm with rfl|hm
          · exact roundUp_le _ hfloor hsized
          · exact hwords block hm
        · exact hwords block hm
    | deallocate pointer => exact hwords block hm
    | trim => exact hwords block (List.mem_of_mem_filter hm)

/-- A block that an allocation returns is live with its size. -/
theorem returned_live {answer : Option P} {bytes : ℕ}
    (h : (pool.allocate answer bytes).1=.ok (some pointer)) :
    (pool.allocate answer bytes).2.liveBlocks.lookup pointer=some (pool.roundUp bytes) := by
  have he := allocate_effect pool answer bytes
  generalize pool.allocate answer bytes=result at he h
  cases he with
  | empty _ _ => cases h
  | reuse other _ _ =>
    cases h
    exact AList.lookup_insert _
  | refuse _ _ => cases h
  | obtain other _ _ =>
    cases h
    exact AList.lookup_insert _

/-- A pointer that no live block has is rejected. -/
theorem deallocate_foreign (h : pointer∉pool.live.map Prod.fst) :
    pool.deallocate (some pointer)=
      (.error (.invalidArgument "MemoryPool::deallocate on a pointer it did not hand out"),
        pool) := by
  have hl := AList.lookup_eq_none.mpr (notMem_liveBlocks h)
  rw [deallocate,hl]

/-- What the pool keeps and reports, where the figures of bytes are words. -/
structure Accounted (minBlockBytes : ℕ) (s : Episode P) : Prop where
  /-- Live and cached blocks are distinct. -/
  apart : ((s.pool.live++s.pool.cached).map Prod.fst).Nodup
  /-- A free list holds blocks that the backend supplied in the size of its class. -/
  classes : ∀ blockBytes, ∀ pointer∈s.pool.freeList blockBytes,
    (pointer,blockBytes)∈s.outstanding
  /-- Every block is a power of two, not below the minimum, and a word. -/
  sizes : ∀ block∈s.pool.live++s.pool.cached,
    (∃ k, block.2=2^k) ∧ minBlockBytes≤block.2 ∧ block.2≤2^63
  /-- A returned block covers the request. -/
  returned : ∀ answer bytes pointer, bytes≤2^63 →
    (s.pool.allocate answer bytes).1=.ok (some pointer) → ∃ blockBytes,
      (s.pool.allocate answer bytes).2.liveBlocks.lookup pointer=some blockBytes ∧
      bytes≤blockBytes ∧ (∃ k, blockBytes=2^k) ∧ minBlockBytes≤blockBytes ∧ blockBytes≤2^63
  /-- `bytes_in_use` is the sum of the live sizes. -/
  inUse : s.pool.stats.bytesInUse=word64 (bytesOf s.pool.live)
  /-- `bytes_reserved` is the sum of the live and the cached sizes. -/
  reserved : s.pool.stats.bytesReserved=word64 (bytesOf s.pool.live+bytesOf s.pool.cached)
  /-- `free_block_count` is the number of cached blocks. -/
  free : s.pool.stats.freeBlockCount=s.pool.cached.length
  /-- Every counted allocation was a reuse, a fresh block or a failure. -/
  counts : s.pool.stats.allocationCount=
    s.pool.stats.reuseCount+s.pool.stats.backendAllocations+s.failed
  /-- The peak is the maximum of the live bytes while these fit a word. -/
  peak : (∀ bytes∈s.seen, bytes<2^64) →
    IsGreatest {bytes | bytes∈s.seen} s.pool.stats.peakBytesInUse
  /-- A null pointer is ignored. -/
  null : s.pool.deallocate none=(.ok (),s.pool)
  /-- Any other pointer without a live block is rejected, and nothing changes. -/
  foreign : ∀ pointer∉s.pool.live.map Prod.fst,
    s.pool.deallocate (some pointer)=
      (.error (.invalidArgument "MemoryPool::deallocate on a pointer it did not hand out"),
        s.pool)
  /-- After a trim everything reserved is in use. -/
  trimmed : s.pool.trim.2.stats.bytesReserved=s.pool.trim.2.stats.bytesInUse

/-- The accounts of the pool in every state that calls can reach. -/
theorem episodes_accounted {minBlockBytes : ℕ} {s : Episode P} (hmin : minBlockBytes≤2^63)
    (h : (sizedEpisodes P minBlockBytes).Reaches s) :
    Accounted minBlockBytes s := by
  obtain ⟨hkept,hb⟩ := reaches_booked h.of_guarded
  have hfloor : minBlockBytes ≤ s.pool.minBlockBytes := hkept ▸ le_bitCeil minBlockBytes
  have hword : s.pool.minBlockBytes≤2^63 := hkept ▸ bitCeil_le hmin
  exact {
    apart := Accounts.apart hb
    classes := by
      intro blockBytes pointer hm
      exact hb.blocks.mem_iff.mp (List.mem_append_right _ (mem_cached.mpr hm))
    sizes := by
      intro block hm
      have hout := hb.blocks.mem_iff.mp hm
      obtain ⟨hpow,hle⟩ := hb.sized block hout
      exact ⟨hpow,hfloor.trans hle,reaches_words hmin h block hout⟩
    returned := by
      intro answer bytes pointer hsize hr
      exact ⟨_,returned_live hr,le_roundUp _ _,
        roundUp_pow _ _ (hkept ▸ bitCeil_pow minBlockBytes),hfloor.trans (le_max_left _ _),
        roundUp_le _ hword hsize⟩
    inUse := hb.inUse
    reserved := by rw [hb.reserved,←bytesOf_perm hb.blocks,bytesOf_append]
    free := hb.free
    counts := hb.counts
    peak := hb.peak
    null := rfl
    foreign := fun pointer hm => deallocate_foreign hm
    trimmed := by
      have ht := booked_trim hb
      have hr : s.pool.trim.2.stats.bytesReserved=word64 (bytesOf (s.apply .trim).outstanding) :=
        ht.reserved
      have hu : s.pool.trim.2.stats.bytesInUse=word64 (bytesOf (s.apply .trim).pool.live) :=
        ht.inUse
      have hp := ht.blocks
      change List.Perm (_++s.pool.trim.2.cached) _ at hp
      rw [cached_cleared,List.append_nil] at hp
      rw [hr,hu,bytesOf_perm hp]}

end Pools

section Runs

variable {P : Type} [DecidableEq P] {minBlockBytes : ℕ} {s : Episode P}

/-- A new pool. -/
theorem reaches_new (hpos : 0 < minBlockBytes) : (sizedEpisodes P minBlockBytes).Reaches
    {pool := {minBlockBytes := bitCeil minBlockBytes}} := by
  refine .start ⟨_,?_,rfl⟩
  rw [create,if_neg hpos.ne']

/-- One more call. -/
theorem reaches_apply (h : (sizedEpisodes P minBlockBytes).Reaches s) {call : Call P}
    (hs : Sized call) (hp : s.Permitted call) :
    (sizedEpisodes P minBlockBytes).Reaches (s.apply call) :=
  .step h ⟨hs,hp,rfl⟩

end Runs

/-- A new pool of pointers that are numbers. -/
def newPool : Episode ℕ := {pool := {minBlockBytes := bitCeil 256}}

/-- A pool that has handed out a block and taken it back. -/
def handedBack : Episode ℕ :=
  (newPool.apply (.allocate 1000 (some 1))).apply (.deallocate (some 1))

/-- Its accounts. -/
theorem episodes_accounted_handedBack : Accounted 256 handedBack := by
  have hone : (sizedEpisodes ℕ 256).Reaches (newPool.apply (.allocate 1000 (some 1))) :=
    reaches_apply (reaches_new (by decide)) (show 1000≤2^63 by decide)
      (fun _ => List.not_mem_nil)
  exact episodes_accounted (by decide) (reaches_apply hone trivial trivial)

/-- A pool that has handed out two blocks of half the address space. -/
def twoHalves : Episode ℕ :=
  (newPool.apply (.allocate (2^63) (some 1))).apply (.allocate (2^63) (some 2))

/-- It hands out a quarter more and takes one of the halves back. -/
def threeQuarters : Episode ℕ :=
  (twoHalves.apply (.allocate (2^62) (some 3))).apply (.deallocate (some 1))

/-- With two halves handed out the bytes in use are reported as none, and later
they are above their peak. -/
theorem twoHalves_unaccounted :
    ((sizedEpisodes ℕ 256).Reaches twoHalves ∧
      bytesOf twoHalves.pool.live=2^64 ∧ twoHalves.pool.stats.bytesInUse=0 ∧
      twoHalves.pool.stats.bytesReserved=0) ∧
    (sizedEpisodes ℕ 256).Reaches threeQuarters ∧
      threeQuarters.pool.stats.peakBytesInUse < threeQuarters.pool.stats.bytesInUse := by
  have hone : (sizedEpisodes ℕ 256).Reaches (newPool.apply (.allocate (2^63) (some 1))) :=
    reaches_apply (reaches_new (by decide)) (show 2^63≤2^63 from le_rfl)
      (fun _ => List.not_mem_nil)
  have htwo : (sizedEpisodes ℕ 256).Reaches twoHalves := by
    refine reaches_apply hone (show 2^63≤2^63 from le_rfl) (fun _ => ?_)
    decide +kernel
  have hthree : (sizedEpisodes ℕ 256).Reaches (twoHalves.apply (.allocate (2^62) (some 3))) := by
    refine reaches_apply htwo (show 2^62≤2^63 by decide) (fun _ => ?_)
    decide +kernel
  refine ⟨⟨htwo,?_⟩,reaches_apply hthree trivial trivial,?_⟩ <;> decide +kernel

end CudaForge.MemoryAccounts
