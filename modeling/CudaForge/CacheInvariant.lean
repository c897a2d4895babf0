import CudaForge.CacheManager
import CudaForge.CeilDivision
import CudaForge.KeyedTables

/-!
# The invariant of the cache manager and what each step of a call does

`PoolInvariant` says that the free stack and the block lists of the tables
share out the pool, that every table holds exactly the blocks its tokens
need, and that the admission order lists the known sequences. One lemma for
each internal step states the state it leaves; the eviction loop is
described by the relation `Evicts`, which later results read by cases.
-/

namespace CudaForge.CacheInvariant

open ExceptionState PythonBuiltins CacheBlocks CacheManager CeilDivision KeyedTables
open CacheManager.KVCacheManager

/-- The source's ceiling division is the mathematical one. -/
theorem pyCeilDiv_eq {size : ℕ} (hs : 0<size) (count : ℕ) :
    pyCeilDiv count size=count ⌈/⌉ size := by
  have hS : (0 : ℤ)<size := by exact_mod_cast hs
  have hu : (count : ℤ)≤((count ⌈/⌉ size : ℕ) : ℤ)*size := by
    exact_mod_cast le_ceilDiv_mul hs count
  have hl : ((count ⌈/⌉ size : ℕ) : ℤ)*size<count+size := by
    exact_mod_cast ceilDiv_mul_lt hs count
  have hd : Int.fdiv (-(count : ℤ)) (size : ℤ)= -((count ⌈/⌉ size : ℕ) : ℤ) := by
    rw [Int.fdiv_eq_ediv_of_nonneg _ hS.le,Int.ediv_eq_iff_of_pos hS]
    constructor <;> nlinarith
  rw [pyCeilDiv,hd,neg_neg,Int.toNat_natCast]

/-- Every block held by some table, table by table. -/
def heldBlocks (tables : Tables) : List BlockId := gather SequenceBlockTable.blocks tables

/-- A table of the given sequence holding exactly the blocks its tokens need. -/
structure ExactTable (blockSize : ℕ) (sequence : SequenceId) (table : SequenceBlockTable) :
    Prop where
  sequence_eq : table.sequenceId=sequence
  size_eq : table.blockSize=blockSize
  blocks_eq : table.blocks.length=table.tokens ⌈/⌉ blockSize

/-- What holds of the manager between calls. -/
structure PoolInvariant (total blockSize : ℕ) (policy : PreemptionPolicy)
    (s : KVCacheManager) : Prop where
  size_pos : 0<blockSize
  size_eq : s.blockSize=blockSize
  policy_eq : s.policy=policy
  pool_eq : s.allocator=exclusivePool total blockSize s.allocator.free
  partition : (s.allocator.free++heldBlocks s.tables).Perm (List.range total)
  exact_tables : ∀ sequence table, s.tables.lookup sequence=some table →
    ExactTable blockSize sequence table
  order_exact : s.admissionOrder.Perm s.tables.keys

/-- The part of the invariant that does not speak of tokens. -/
structure Partitioned (total blockSize : ℕ) (policy : PreemptionPolicy)
    (s : KVCacheManager) : Prop where
  size_pos : 0<blockSize
  size_eq : s.blockSize=blockSize
  policy_eq : s.policy=policy
  pool_eq : s.allocator=exclusivePool total blockSize s.allocator.free
  partition : (s.allocator.free++heldBlocks s.tables).Perm (List.range total)
  own_tables : ∀ sequence table, s.tables.lookup sequence=some table →
    table.sequenceId=sequence ∧ table.blockSize=blockSize
  order_exact : s.admissionOrder.Perm s.tables.keys

variable {total blockSize : ℕ} {policy : PreemptionPolicy} {s t : KVCacheManager}
variable {sequence requester : SequenceId} {table : SequenceBlockTable}

namespace Partitioned

/-- The manager reports the pool it was built over. -/
theorem totalBlocks_eq (h : Partitioned total blockSize policy s) : s.totalBlocks=total := by
  rw [totalBlocks,h.pool_eq]
  rfl

/-- The allocator's fields are the pool's. -/
theorem pool_fields (h : Partitioned total blockSize policy s) :
    s.allocator.total=total ∧ s.allocator.blockSize=blockSize := by
  refine ⟨h.totalBlocks_eq,?_⟩
  rw [h.pool_eq]
  rfl

/-- Splitting off one table's blocks. -/
theorem partition_at (h : Partitioned total blockSize policy s)
    (hk : s.tables.lookup sequence=some table) :
    (s.allocator.free++(table.blocks++heldBlocks (s.tables.erase sequence))).Perm
      (List.range total) :=
  ((gather_perm_erase SequenceBlockTable.blocks hk).append_left _).symm.trans h.partition

/-- A table's blocks are distinct blocks of the pool, none of them free. -/
theorem returnable (h : Partitioned total blockSize policy s)
    (hk : s.tables.lookup sequence=some table) :
    (table.blocks++s.allocator.free).Nodup ∧ ∀ block∈table.blocks, block<total := by
  have hp := h.partition_at hk
  constructor
  · have hd := hp.nodup_iff.mpr List.nodup_range
    rw [←List.append_assoc] at hd
    exact List.perm_append_comm.nodup_iff.mp (List.Nodup.of_append_left hd)
  · intro block hm
    have hr := hp.mem_iff.mp (List.mem_append_right _ (List.mem_append_left _ hm))
    exact List.mem_range.mp hr

/-- The free stack has no repetition. -/
theorem free_nodup (h : Partitioned total blockSize policy s) : s.allocator.free.Nodup :=
  List.Nodup.of_append_left (h.partition.nodup_iff.mpr List.nodup_range)

/-- Admission order and tables know the same sequences. -/
theorem mem_order (h : Partitioned total blockSize policy s) (sequence : SequenceId) :
    sequence∈s.admissionOrder ↔ sequence∈s.tables := by
  rw [h.order_exact.mem_iff]
  exact AList.mem_keys.symm

/-- No sequence is admitted twice. -/
theorem order_nodup (h : Partitioned total blockSize policy s) : s.admissionOrder.Nodup :=
  h.order_exact.nodup_iff.mpr s.tables.keys_nodup

/-- The blocks others hold, and the requester's own, make up the held ones. -/
theorem reclaimable_add_own (h : Partitioned total blockSize policy s)
    (hk : s.tables.lookup sequence=some table) :
    s.freeBlocks+(s.reclaimableBlocks sequence+table.blocks.length)=total := by
  have hr : s.reclaimableBlocks sequence=(heldBlocks (s.tables.erase sequence)).length := by
    rw [reclaimableBlocks,filter_ne_eq_erase,heldBlocks,gather,List.length_flatMap]
  have hl := (h.partition_at hk).length_eq
  rw [List.length_append,List.length_append,List.length_range] at hl
  rw [hr,freeBlocks,BlockAllocator.freeBlocks]
  omega

end Partitioned

namespace PoolInvariant

/-- Forgetting the tokens. -/
theorem partitioned (h : PoolInvariant total blockSize policy s) :
    Partitioned total blockSize policy s :=
  ⟨h.size_pos,h.size_eq,h.policy_eq,h.pool_eq,h.partition,
    fun sequence table hk => ⟨(h.exact_tables sequence table hk).sequence_eq,
      (h.exact_tables sequence table hk).size_eq⟩,h.order_exact⟩

/-- A partitioned manager whose tables cover their tokens exactly. -/
theorem of_partitioned (h : Partitioned total blockSize policy s)
    (hx : ∀ sequence table, s.tables.lookup sequence=some table →
      table.blocks.length=table.tokens ⌈/⌉ blockSize) : PoolInvariant total blockSize policy s :=
  ⟨h.size_pos,h.size_eq,h.policy_eq,h.pool_eq,h.partition,
    fun sequence table hk => ⟨(h.own_tables sequence table hk).1,
      (h.own_tables sequence table hk).2,hx sequence table hk⟩,h.order_exact⟩

/-- The manager reports the pool it was built over. -/
theorem totalBlocks_eq (h : PoolInvariant total blockSize policy s) : s.totalBlocks=total :=
  h.partitioned.totalBlocks_eq

/-- Free blocks and held blocks together are the pool. -/
theorem free_add_held (h : PoolInvariant total blockSize policy s) :
    s.freeBlocks+(heldBlocks s.tables).length=total := by
  have hl := h.partition.length_eq
  rwa [List.length_append,List.length_range] at hl

/-- Splitting off one table's blocks. -/
theorem partition_at (h : PoolInvariant total blockSize policy s)
    (hk : s.tables.lookup sequence=some table) :
    (s.allocator.free++(table.blocks++heldBlocks (s.tables.erase sequence))).Perm
      (List.range total) := h.partitioned.partition_at hk

/-- A table's blocks are distinct blocks of the pool, none of them free. -/
theorem returnable (h : PoolInvariant total blockSize policy s)
    (hk : s.tables.lookup sequence=some table) :
    (table.blocks++s.allocator.free).Nodup ∧ ∀ block∈table.blocks, block<total :=
  h.partitioned.returnable hk

/-- Admission order and tables know the same sequences. -/
theorem mem_order (h : PoolInvariant total blockSize policy s) (sequence : SequenceId) :
    sequence∈s.admissionOrder ↔ sequence∈s.tables := h.partitioned.mem_order sequence

/-- No sequence is admitted twice. -/
theorem order_nodup (h : PoolInvariant total blockSize policy s) : s.admissionOrder.Nodup :=
  h.partitioned.order_nodup

/-- The blocks others hold, and the requester's own, make up the held ones. -/
theorem reclaimable_add_own (h : PoolInvariant total blockSize policy s)
    (hk : s.tables.lookup sequence=some table) :
    s.freeBlocks+(s.reclaimableBlocks sequence+table.blocks.length)=total :=
  h.partitioned.reclaimable_add_own hk

end PoolInvariant

/-- The constructor's result satisfies the invariant. -/
theorem create_invariant (hn : 0<total) (hs : 0<blockSize) (policy : PreemptionPolicy) :
    ∃ s, KVCacheManager.create total blockSize policy=.ok s ∧
      PoolInvariant total blockSize policy s ∧ s.tables=∅ ∧
      s.allocator.free=List.range total ∧ s.preemptions=0 ∧ s.recomputedTokens=0 := by
  refine ⟨⟨exclusivePool total blockSize (List.range total),blockSize,policy,∅,[],0,0⟩,?_,?_,
    rfl,rfl,rfl,rfl⟩
  · rw [KVCacheManager.create,create_eq hn hs]
  · refine ⟨hs,rfl,rfl,rfl,?_,?_,List.Perm.refl _⟩
    · rw [heldBlocks,gather_empty,List.append_nil]
      rfl
    · intro sequence table hk
      rw [AList.lookup_empty] at hk
      exact absurd hk (by simp only [reduceCtorEq,not_false_eq_true])

/-- Releasing blocks pushes them one by one on the free stack. -/
theorem releaseBlocks_meets (blocks : List BlockId) : ∀ {s : KVCacheManager} {free : List BlockId},
    s.allocator=exclusivePool total blockSize free → (blocks++free).Nodup →
    (∀ block∈blocks, block<total) →
    Meets (releaseBlocks blocks) s (fun _ t =>
      t={s with allocator := exclusivePool total blockSize (blocks.reverse++free)}) := by
  induction blocks with
  | nil =>
    intro s free hp _ _
    simp only [releaseBlocks,meets_pure,List.reverse_nil,List.nil_append,←hp]
  | cons block rest ih =>
    intro s free hp hn hb
    rw [List.cons_append,List.nodup_cons,List.mem_append,not_or] at hn
    have hr := release_exclusive blockSize (hb block (List.mem_cons_self)) hn.1.2
    have hn' : (rest++(block::free)).Nodup := by
      rw [List.nodup_middle,List.nodup_cons,List.mem_append,not_or]
      exact hn
    have hi := ih (s:={s with allocator := exclusivePool total blockSize (block::free)})
      rfl hn' (fun b hm => hb b (List.mem_cons_of_mem _ hm))
    simp only [releaseBlocks,meets_bind,meets_get,hp,hr,meets_raising_ok,meets_set]
    simpa only [List.reverse_cons,List.append_assoc,List.singleton_append] using hi

/-- The manager after one table has been emptied. -/
def emptied (s : KVCacheManager) (sequence : SequenceId) (table : SequenceBlockTable) :
    KVCacheManager :=
  {s with
    allocator := exclusivePool s.allocator.total s.allocator.blockSize
      (table.blocks.reverse++s.allocator.free)
    tables := s.tables.insert sequence (.create sequence s.blockSize)
    recomputedTokens := s.recomputedTokens+table.tokenCount
    preemptions := s.preemptions+1}

/-- Reclaiming a known table leaves exactly the emptied manager. -/
theorem reclaim_meets (h : PoolInvariant total blockSize policy s)
    (hk : s.tables.lookup sequence=some table) :
    Meets (reclaim sequence table) s (fun _ t => t=emptied s sequence table) := by
  obtain ⟨hn,hb⟩ := h.returnable hk
  have ht : s.allocator.total=total := h.totalBlocks_eq
  have hs : s.allocator.blockSize=blockSize := by rw [h.pool_eq]; rfl
  simp only [reclaim,meets_bind,meets_modify]
  refine (releaseBlocks_meets table.blocks h.pool_eq hn hb).mono ?_
  rintro _ u rfl
  simp only [emptied,ht,hs]

/-- Emptying a table keeps the pool partitioned. -/
theorem emptied_partitioned (h : Partitioned total blockSize policy s)
    (hk : s.tables.lookup sequence=some table) :
    Partitioned total blockSize policy (emptied s sequence table) := by
  obtain ⟨ht,hs⟩ := h.pool_fields
  have hm : sequence∈s.tables := AList.lookup_isSome.mp (by rw [hk]; rfl)
  refine ⟨h.size_pos,h.size_eq,h.policy_eq,by simp only [emptied,ht,hs,exclusivePool],?_,?_,?_⟩
  · -- the table's blocks move from the middle of the list to its front
    have hp := h.partition_at hk
    have hg : heldBlocks (emptied s sequence table).tables=
        heldBlocks (s.tables.erase sequence) := by
      simp only [emptied,heldBlocks,gather_insert,SequenceBlockTable.create,List.nil_append]
    rw [hg]
    refine List.Perm.trans ?_ hp
    have hr := (List.reverse_perm table.blocks).append_right s.allocator.free
    have hc := hr.trans List.perm_append_comm
    rw [←List.append_assoc]
    exact hc.append_right _
  · intro other found hf
    by_cases he : other=sequence
    · subst he
      rw [emptied,AList.lookup_insert,Option.some.injEq] at hf
      subst hf
      exact ⟨rfl,h.size_eq⟩
    · rw [emptied,AList.lookup_insert_ne he] at hf
      exact h.own_tables other found hf
  · have hkeys : (emptied s sequence table).tables.keys=sequence::s.tables.keys.erase sequence :=
      AList.keys_insert _
    rw [hkeys]
    exact h.order_exact.trans (List.perm_cons_erase (AList.mem_keys.mp hm))

/-- A rewritten table and untouched others cover their tokens exactly. -/
theorem exact_insert (h : PoolInvariant total blockSize policy s)
    (hx : table.blocks.length=table.tokens ⌈/⌉ blockSize) :
    ∀ other found, (s.tables.insert sequence table).lookup other=some found →
      found.blocks.length=found.tokens ⌈/⌉ blockSize := by
  intro other found hf
  by_cases he : other=sequence
  · subst he
    rw [AList.lookup_insert,Option.some.injEq] at hf
    subst hf
    exact hx
  · rw [AList.lookup_insert_ne he] at hf
    exact (h.exact_tables other found hf).blocks_eq

/-- An empty table covers its tokens exactly. -/
theorem exact_create (h : PoolInvariant total blockSize policy s) (sequence : SequenceId) :
    (SequenceBlockTable.create sequence s.blockSize).blocks.length=
      (SequenceBlockTable.create sequence s.blockSize).tokens ⌈/⌉ blockSize := by
  simp only [SequenceBlockTable.create,List.length_nil,(ceilDiv_eq_zero_iff h.size_pos 0).mpr]

/-- Emptying a table keeps the invariant. -/
theorem emptied_invariant (h : PoolInvariant total blockSize policy s)
    (hk : s.tables.lookup sequence=some table) :
    PoolInvariant total blockSize policy (emptied s sequence table) :=
  .of_partitioned (emptied_partitioned h.partitioned hk) (exact_insert h (exact_create h sequence))

end CudaForge.CacheInvariant
