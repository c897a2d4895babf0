import CudaForge.BlockTurns
import CudaForge.CacheBooks
import CudaForge.VictimOrder

/-!
# One more token for each of several sequences

What an extension by one token does to the cache, as a turn at its blocks: a
sequence without slack asks for one block, and when none is free the policy's
victim gives way. A pass extends known sequences one after the other.
-/

namespace CudaForge.CacheGrowth

open ExceptionState CacheBlocks CacheManager CeilDivision CacheInvariant CacheReservation
open CacheBooks CachePlacement SchedulerEffects EvictionOrder VictimOrder BlockTurns

variable {total blockSize : ℕ} {policy : PreemptionPolicy} {cache left : KVCacheManager}
variable {sequence : SequenceId}

/-- A sequence's tokens and one more fit the pool. -/
def FitsPool (cache : KVCacheManager) (sequence : SequenceId) : Prop :=
  cache.tokensHeld sequence+1≤cache.totalBlocks*cache.blockSize

instance : Decidable (FitsPool cache sequence) := inferInstanceAs (Decidable (_ ≤ _))

/-- What a cache shows of its pool: the free blocks, the blocks of each
sequence, and who has no slack left in them for one more token. -/
def stockOf (cache : KVCacheManager) : Stock SequenceId where
  free := cache.freeBlocks
  held := cache.blocksHeld
  asks sequence := decide (cache.tokensHeld sequence=cache.blocksHeld sequence*cache.blockSize)

/-- A sequence with a table is known. -/
theorem exists_lookup (hk : sequence∈cache.tables) :
    ∃ table, cache.tables.lookup sequence=some table :=
  Option.isSome_iff_exists.mp (AList.lookup_isSome.mpr hk)

/-- One more token takes one more block exactly when there is no slack. -/
theorem additional_one (h : PoolInvariant total blockSize policy cache)
    (hk : sequence∈cache.tables) :
    cache.additionalBlocksFor sequence 1=((stockOf cache).asks sequence).toNat := by
  obtain ⟨table,ht⟩ := exists_lookup hk
  have ha := additional_exact h ht 1
  have hb := (h.exact_tables sequence table ht).blocks_eq
  have hs := h.size_pos
  have hl := le_ceilDiv_mul hs table.tokens
  rw [←hb] at hl
  rw [stockOf]
  dsimp only
  rw [tokensHeld_of_lookup ht,blocksHeld_of_lookup ht,h.size_eq]
  by_cases hf : table.tokens=table.blocks.length*blockSize
  · rw [decide_eq_true hf,Bool.toNat_true]
    have hle : (table.tokens+1) ⌈/⌉ blockSize≤table.blocks.length+1 := by
      rw [ceilDiv_le_iff hs,Nat.add_mul,Nat.one_mul]
      omega
    have hlt : ¬(table.tokens+1) ⌈/⌉ blockSize≤table.blocks.length := by
      rw [ceilDiv_le_iff hs]
      omega
    omega
  · rw [decide_eq_false hf,Bool.toNat_false]
    have hle : (table.tokens+1) ⌈/⌉ blockSize≤table.blocks.length := by
      rw [ceilDiv_le_iff hs]
      omega
    omega

/-- Holding its blocks and the further one is fitting the pool. -/
theorem fitsPool_iff (h : PoolInvariant total blockSize policy cache)
    (hk : sequence∈cache.tables) :
    FitsPool cache sequence ↔
      cache.blocksHeld sequence+((stockOf cache).asks sequence).toNat≤cache.totalBlocks := by
  obtain ⟨table,ht⟩ := exists_lookup hk
  rw [←additional_one h hk,blocksHeld_of_lookup ht,additional_exact h ht,FitsPool,
    tokensHeld_of_lookup ht,h.size_eq,ceilDiv_le_iff h.size_pos]

/-- A sequence holds blocks exactly when it holds tokens. -/
theorem blocksHeld_pos (h : PoolInvariant total blockSize policy cache) :
    0<cache.blocksHeld sequence ↔ 0<cache.tokensHeld sequence := by
  cases ht : cache.tables.lookup sequence with
  | none =>
    have hb : cache.blocksHeld sequence=0 := by rw [KVCacheManager.blocksHeld,ht]
    have hz : cache.tokensHeld sequence=0 := by rw [KVCacheManager.tokensHeld,ht]
    rw [hb,hz]
  | some table =>
    have hb := (h.exact_tables sequence table ht).blocks_eq
    have hl := le_ceilDiv_mul h.size_pos table.tokens
    rw [blocksHeld_of_lookup ht,tokensHeld_of_lookup ht]
    constructor
    · intro hp
      by_contra hz
      rw [Nat.eq_zero_of_not_pos hz,(ceilDiv_eq_zero_iff h.size_pos 0).mpr rfl] at hb
      omega
    · intro hp
      by_contra hz
      rw [←hb,Nat.eq_zero_of_not_pos hz,Nat.zero_mul] at hl
      omega

/-- Whoever is evicted for a reservation was known and held tokens. -/
theorem victims_held (h : PoolInvariant total blockSize policy cache) {tokens : ℕ}
    {outcome : AdmissionOutcome} (hr : Reserves sequence tokens cache outcome left)
    {victim : SequenceId} (hv : victim∈outcome.preempted) :
    victim∈cache.tables ∧ 0<cache.tokensHeld victim := by
  cases hr with
  | refused _ _ => exact absurd hv List.not_mem_nil
  | fits _ _ => exact absurd hv List.not_mem_nil
  | displaced _ _ he _ =>
    obtain ⟨_,table,hk,hb⟩ := he.effect.victims_held victim hv
    refine ⟨known_of_lookup hk,(blocksHeld_pos h).mp ?_⟩
    rw [blocksHeld_of_lookup hk]
    exact List.length_pos_iff.mpr hb

/-- A reservation leaves the admission order alone. -/
theorem reserves_order {tokens : ℕ} {outcome : AdmissionOutcome}
    (hr : Reserves sequence tokens cache outcome left) :
    left.admissionOrder=cache.admissionOrder := by
  cases hr with
  | refused _ _ => rfl
  | fits _ _ => rfl
  | displaced _ _ he _ => exact he.effect.order_eq

/-- A cache shows this stock, whatever the given sequence asks. -/
structure Shows (sequence : SequenceId) (b : Stock SequenceId) (cache : KVCacheManager) :
    Prop where
  free_eq : cache.freeBlocks=b.free
  held_eq : cache.blocksHeld=b.held
  asks_eq : ∀ other, other≠sequence → (stockOf cache).asks other=b.asks other

/-- How an extension turns out. -/
inductive Turn (cache : KVCacheManager) (sequence : SequenceId) (outcome : AdmissionOutcome)
    (left : KVCacheManager) : Prop
  | served (hr : (stockOf cache).asks sequence=false ∨ 0<(stockOf cache).free)
      (hp : outcome.preempted=[]) (hb : Shows sequence ((stockOf cache).serve sequence) left)
  | displaced {victim : SequenceId} (ha : (stockOf cache).asks sequence=true)
      (hf : (stockOf cache).free=0) (hc : cache.chooseVictim sequence=some victim)
      (hp : outcome.preempted=[victim])
      (hb : Shows sequence (((stockOf cache).displace victim).serve sequence) left)
  | refused (ha : (stockOf cache).asks sequence=true) (hf : (stockOf cache).free=0)
      (hc : cache.chooseVictim sequence=none) (hp : outcome.preempted=[]) (hl : left=cache)

/-- What one extension of a known sequence does. -/
structure Grown (cache : KVCacheManager) (sequence : SequenceId) (outcome : AdmissionOutcome)
    (left : KVCacheManager) : Prop where
  known : ∀ other, other∈left.tables ↔ other∈cache.tables
  total_eq : left.totalBlocks=cache.totalBlocks
  size_eq : left.blockSize=cache.blockSize
  policy_eq : left.policy=cache.policy
  order_eq : left.admissionOrder=cache.admissionOrder
  others : ∀ other, other≠sequence → left.tokensHeld other≤cache.tokensHeld other
  ok_iff : outcome.ok=true ↔ FitsPool cache sequence
  refused : outcome.ok=false → outcome.preempted=[]
  victims_held : ∀ victim∈outcome.preempted, 0<cache.tokensHeld victim
  turn : Turn cache sequence outcome left

/-- Evictions give nobody tokens. -/
theorem evicted_tokens_le {evicted : List SequenceId} (hx : Evicted sequence cache evicted left)
    (other : SequenceId) : left.tokensHeld other≤cache.tokensHeld other := by
  by_cases hm : other∈evicted
  · rw [tokensHeld_of_lookup (hx.emptied_lookup other hm)]
    exact Nat.zero_le _
  · exact ((evicted_booked hx).2 other hm).le

/-- An eviction for one block empties exactly the policy's choice. -/
theorem evicts_one {needed : ℕ} {evicted : List SequenceId} (hn : needed≤1)
    (hf : cache.freeBlocks<needed) (he : Evicts needed sequence cache evicted left)
    (ht : needed≤left.freeBlocks) :
    ∃ victim table, cache.chooseVictim sequence=some victim ∧ evicted=[victim] ∧
      cache.tables.lookup victim=some table ∧ left=emptied cache victim table := by
  cases he with
  | enough hf' => exact absurd hf' (Nat.not_le.mpr hf)
  | stuck _ _ => exact absurd ht (Nat.not_le.mpr hf)
  | @evict _ _ victim table later hf' hc hk hl =>
    refine ⟨victim,table,hc,?_⟩
    obtain ⟨_,found,hfound,hb⟩ := chooseVictim_holds hc
    have ht : table=found := Option.some.inj (hk.symm.trans hfound)
    have hp : 0<table.blocks.length := List.length_pos_iff.mpr (ht ▸ hb)
    have hfree : needed≤(emptied cache victim table).freeBlocks := by
      simp only [emptied,KVCacheManager.freeBlocks,BlockAllocator.freeBlocks,exclusivePool,
        List.length_append,List.length_reverse]
      omega
    cases hl with
    | enough _ => exact ⟨rfl,hk,rfl⟩
    | stuck hf' _ => exact absurd hfree (Nat.not_le.mpr hf')
    | evict hf' _ _ _ => exact absurd hfree (Nat.not_le.mpr hf')

/-- A granted extension is a turn with a block to spare. -/
theorem granted_shows {table : SequenceBlockTable} {b : Stock SequenceId}
    (hk : cache.tables.lookup sequence=some table) (hb : Shows sequence b cache)
    (hr : b.asks sequence=false ∨ 0<b.free) :
    Shows sequence (b.serve sequence)
      (granted cache sequence table (b.asks sequence).toNat 1) := by
  have hother : ∀ other, other≠sequence →
      (granted cache sequence table (b.asks sequence).toNat 1).tables.lookup other=
        cache.tables.lookup other := fun other hn => AList.lookup_insert_ne hn
  have hbl : ∀ other, other≠sequence →
      (granted cache sequence table (b.asks sequence).toNat 1).blocksHeld other=
        cache.blocksHeld other := by
    intro other hn
    rw [KVCacheManager.blocksHeld,hother other hn,KVCacheManager.blocksHeld]
  have hlen : (b.asks sequence).toNat≤cache.allocator.free.length := by
    have hfree : cache.allocator.free.length=b.free := hb.free_eq
    rcases hr with hr | hr
    · rw [hr]
      exact Nat.zero_le _
    · exact (Bool.toNat_le _).trans (by omega)
  refine ⟨?_,?_,?_⟩
  · rw [Stock.serve_free,←hb.free_eq]
    exact List.length_drop
  · funext other
    by_cases he : other=sequence
    · subst he
      rw [Stock.serve_held_self,←hb.held_eq,blocksHeld_of_lookup (AList.lookup_insert _),
        blocksHeld_of_lookup hk,List.length_append,List.length_take,Nat.min_eq_left hlen]
    · rw [hbl other he,Stock.serve_held_ne b he,hb.held_eq]
  · intro other hn
    rw [Stock.serve_asks,←hb.asks_eq other hn,stockOf,stockOf]
    dsimp only
    rw [hbl other hn,tokensHeld_congr (hother other hn)]
    rfl

/-- Emptying a table displaces its sequence. -/
theorem emptied_shows {table : SequenceBlockTable} {victim : SequenceId}
    (hk : cache.tables.lookup victim=some table) :
    Shows sequence ((stockOf cache).displace victim) (emptied cache victim table) := by
  have hother : ∀ other, other≠victim →
      (emptied cache victim table).tables.lookup other=cache.tables.lookup other :=
    fun other hn => emptied_lookup_ne hn
  have hbl : ∀ other, other≠victim →
      (emptied cache victim table).blocksHeld other=cache.blocksHeld other := by
    intro other hn
    rw [KVCacheManager.blocksHeld,hother other hn,KVCacheManager.blocksHeld]
  have hself : (emptied cache victim table).blocksHeld victim=0 := by
    rw [blocksHeld_of_lookup emptied_lookup_self]
    rfl
  refine ⟨?_,?_,?_⟩
  · have hb : (stockOf cache).held victim=table.blocks.length := blocksHeld_of_lookup hk
    rw [Stock.displace,hb]
    simp only [emptied,KVCacheManager.freeBlocks,BlockAllocator.freeBlocks,exclusivePool,
      List.length_append,List.length_reverse,stockOf]
    omega
  · funext other
    by_cases he : other=victim
    · subst he
      rw [hself,Stock.displace_held_self]
    · rw [hbl other he,(stockOf cache).displace_held_ne he]
      rfl
  · intro other _
    by_cases he : other=victim
    · subst he
      rw [Stock.displace_asks_self,stockOf]
      dsimp only
      rw [hself,tokensHeld_of_lookup emptied_lookup_self,Nat.zero_mul]
      rfl
    · rw [(stockOf cache).displace_asks_ne he,stockOf,stockOf]
      dsimp only
      rw [hbl other he,tokensHeld_congr (hother other he)]
      rfl

/-- Where the requester holds every block the policy finds nobody. -/
theorem noVictim_of_full (h : PoolInvariant total blockSize policy cache)
    {table : SequenceBlockTable} (hk : cache.tables.lookup sequence=some table)
    (hb : total≤table.blocks.length) : cache.chooseVictim sequence=none := by
  cases hc : cache.chooseVictim sequence with
  | none => rfl
  | some victim =>
    obtain ⟨hne,other,ho,hn⟩ := chooseVictim_holds hc
    have hp := List.length_pos_iff.mpr hn
    have ha := (emptied_invariant h ho).reclaimable_add_own
      ((emptied_lookup_ne (Ne.symm hne)).trans hk)
    have hf : (emptied cache victim other).freeBlocks=
        other.blocks.length+cache.freeBlocks := by
      simp only [emptied,KVCacheManager.freeBlocks,BlockAllocator.freeBlocks,exclusivePool,
        List.length_append,List.length_reverse]
    omega

/-- The effect of an extension, read off the reservation. -/
theorem reserves_grown (h : PoolInvariant total blockSize policy cache)
    {outcome : AdmissionOutcome} (hr : Reserves sequence 1 cache outcome left)
    (hl : PoolInvariant total blockSize policy left) : Grown cache sequence outcome left := by
  have htotal : left.totalBlocks=cache.totalBlocks := h.totalBlocks_eq ▸ hl.totalBlocks_eq
  have hsize : left.blockSize=cache.blockSize := h.size_eq ▸ hl.size_eq
  have hpolicy : left.policy=cache.policy := h.policy_eq ▸ hl.policy_eq
  have hk := Reserves.known hr
  have hone := additional_one h hk
  have hfit := fitsPool_iff h hk
  have hok := reserves_ok_iff h hr
  have hheld : ∀ victim∈outcome.preempted, 0<cache.tokensHeld victim :=
    fun victim hv => (victims_held h hr hv).2
  have hown : outcome.ok=true ↔ FitsPool cache sequence := by
    rw [hok,FitsPool,ceilDiv_le_iff h.size_pos,h.totalBlocks_eq,h.size_eq]
  have horder := reserves_order hr
  have hno : outcome.ok=false → outcome.preempted=[] := fun ho =>
    ((reserves_booked hr).refused ho).1
  have hstock : Shows sequence (stockOf cache) cache := ⟨rfl,rfl,fun _ _ => rfl⟩
  have hbool := Bool.toNat_le ((stockOf cache).asks sequence)
  cases hr with
  | refused ht hn =>
    have ha := h.reclaimable_add_own ht
    have hto := h.totalBlocks_eq
    have hask : (stockOf cache).asks sequence=true := by
      cases hask : (stockOf cache).asks sequence with
      | true => rfl
      | false =>
        rw [hone,hask,Bool.toNat_false] at hn
        omega
    rw [hone,hask,Bool.toNat_true] at hn
    have hzero : cache.freeBlocks=0 := by omega
    exact ⟨fun _ => Iff.rfl,htotal,hsize,hpolicy,horder,fun _ _ => Nat.le_refl _,hown,hno,hheld,
      .refused hask hzero (noVictim_of_full h ht (by omega)) rfl rfl⟩
  | @fits table ht hf =>
    obtain ⟨hkn,_,hto⟩ := granted_booked (cache.additionalBlocksFor sequence 1) 1 ht
    refine ⟨hkn,htotal,hsize,hpolicy,horder,fun other hn => (hto other hn).le,hown,hno,hheld,
      ?_⟩
    rw [hone] at hf ⊢
    have hroom : (stockOf cache).asks sequence=false ∨ 0<(stockOf cache).free := by
      cases hask : (stockOf cache).asks sequence with
      | false => exact Or.inl rfl
      | true =>
        rw [hask,Bool.toNat_true] at hf
        exact Or.inr hf
    exact .served hroom rfl (granted_shows ht hstock hroom)
  | @displaced table evicted t ht hf he hfree =>
    have hx := he.effect
    have hns : sequence∉evicted := fun hm => (hx.victims_held sequence hm).1 rfl
    have ht' : t.tables.lookup sequence=some table := (hx.spared_lookup sequence hns).trans ht
    obtain ⟨hkn,_,hto⟩ := granted_booked (cache.additionalBlocksFor sequence 1) 1 ht'
    refine ⟨fun other => (hkn other).trans ((evicted_booked hx).1 other),htotal,hsize,hpolicy,
      horder,fun other hn => (hto other hn).trans_le (evicted_tokens_le hx other),hown,hno,hheld,?_⟩
    rw [hone] at hf he hfree ⊢
    obtain ⟨victim,found,hc,hv,hkv,rfl⟩ := evicts_one hbool hf he hfree
    have hask : (stockOf cache).asks sequence=true := by
      cases hask : (stockOf cache).asks sequence with
      | true => rfl
      | false =>
        rw [hask,Bool.toNat_false] at hf
        exact absurd hf (Nat.not_lt_zero _)
    rw [hask,Bool.toNat_true] at hf
    have hne : sequence≠victim := fun he => hns (hv ▸ he ▸ List.mem_singleton_self _)
    have hask' : ((stockOf cache).displace victim).asks sequence=true :=
      ((stockOf cache).displace_asks_ne hne).trans hask
    have hshows := @emptied_shows _ sequence _ _ hkv
    have hpos : 0<((stockOf cache).displace victim).free := by
      rw [←hshows.free_eq]
      rw [hask,Bool.toNat_true] at hfree
      exact hfree
    have hg := granted_shows ht' hshows (.inr hpos)
    rw [hask',←hask] at hg
    exact .displaced hask (Nat.lt_one_iff.mp hf) hc hv hg

/-- An extension of a known sequence returns, and `Grown` tells its effect. -/
theorem extend_known (h : PoolInvariant total blockSize policy cache)
    (hk : sequence∈cache.tables) :
    ∃ outcome, KVCacheManager.extend sequence 1 cache=
        .ok outcome (after (.extend sequence 1) cache) ∧
      Grown cache sequence outcome (after (.extend sequence 1) cache) ∧
      PoolInvariant total blockSize policy (after (.extend sequence 1) cache) := by
  rcases extend_cases h sequence with ⟨outcome,left,hx,hr,hi⟩ | ⟨hn,_⟩
  · have ha : after (.extend sequence 1) cache=left := by
      rw [after,CacheCall.run,bind_ok hx]
      rfl
    rw [ha]
    exact ⟨outcome,hx,reserves_grown h hr hi,hi⟩
  · exact absurd hk hn

/-- A pass over known sequences returns. -/
theorem extendEach_known (sequences : List SequenceId) :
    ∀ {cache : KVCacheManager}, PoolInvariant total blockSize policy cache →
      (∀ sequence∈sequences, sequence∈cache.tables) →
      ∃ answers left, extendEach sequences cache=.ok answers left := by
  induction sequences with
  | nil => exact fun {cache} _ _ => ⟨[],cache,rfl⟩
  | cons sequence rest ih =>
    intro cache h hk
    obtain ⟨outcome,hx,hg,hi⟩ := extend_known h (hk sequence List.mem_cons_self)
    obtain ⟨answers,left,ha⟩ := ih hi
      (fun other hm => (hg.known other).mpr (hk other (List.mem_cons_of_mem _ hm)))
    refine ⟨(sequence,outcome)::answers,left,?_⟩
    rw [extendEach,bind_ok hx,bind_ok ha]
    rfl

/-- A pass that returns, one extension at a time. -/
theorem extendEach_cons {rest : List SequenceId} {answers : Answers}
    (h : PoolInvariant total blockSize policy cache)
    (hx : extendEach (sequence::rest) cache=.ok answers left) :
    ∃ outcome later, answers=(sequence,outcome)::later ∧ sequence∈cache.tables ∧
      Grown cache sequence outcome (after (.extend sequence 1) cache) ∧
      PoolInvariant total blockSize policy (after (.extend sequence 1) cache) ∧
      extendEach rest (after (.extend sequence 1) cache)=.ok later left := by
  rw [extendEach] at hx
  rcases extend_cases h sequence with ⟨_,_,_,hr,_⟩ | ⟨_,e,he⟩
  · have hk : sequence∈cache.tables := Reserves.known hr
    obtain ⟨outcome,ho,hg,hi⟩ := extend_known h hk
    rw [bind_ok ho] at hx
    cases hy : extendEach rest (after (.extend sequence 1) cache) with
    | error e last =>
      rw [bind_error hy] at hx
      exact absurd hx (by simp only [reduceCtorEq,not_false_eq_true])
    | ok later last =>
      rw [bind_ok hy] at hx
      obtain ⟨ha,hl⟩ := EStateM.Result.ok.inj hx
      exact ⟨outcome,later,ha.symm,hk,hg,hi,by rw [hl]⟩
  · rw [bind_error he] at hx
    exact absurd hx (by simp only [reduceCtorEq,not_false_eq_true])

/-- A pass that returns found all of its sequences known. -/
theorem extendEach_knows (sequences : List SequenceId) :
    ∀ {cache left : KVCacheManager} {answers : Answers},
      PoolInvariant total blockSize policy cache → extendEach sequences cache=.ok answers left →
        ∀ sequence∈sequences, sequence∈cache.tables := by
  induction sequences with
  | nil => exact fun _ _ _ hm => absurd hm List.not_mem_nil
  | cons sequence rest ih =>
    intro cache left answers h hx other hm
    obtain ⟨_,_,_,hk,hg,hi,hr⟩ := extendEach_cons h hx
    rcases List.mem_cons.mp hm with rfl | hm
    · exact hk
    · exact (hg.known other).mp (ih hi hr other hm)

/-- Every sequence gets one answer, in order. -/
theorem extendEach_keys (sequences : List SequenceId) :
    ∀ {cache : KVCacheManager} {answers : Answers}, PoolInvariant total blockSize policy cache →
      extendEach sequences cache=.ok answers left → answers.map Prod.fst=sequences := by
  induction sequences with
  | nil =>
    intro cache answers _ hx
    rw [←(EStateM.Result.ok.inj hx).1]
    rfl
  | cons sequence rest ih =>
    intro cache answers h hx
    obtain ⟨outcome,later,rfl,_,_,hi,hy⟩ := extendEach_cons h hx
    rw [List.map_cons,ih hi hy]

/-- Whoever evicts is granted its token, and whoever fits the pool before the
pass is granted it too: evictions by others only give it fewer tokens. -/
theorem extendEach_granted (sequences : List SequenceId) :
    ∀ {cache : KVCacheManager} {answers : Answers}, PoolInvariant total blockSize policy cache →
      sequences.Nodup → extendEach sequences cache=.ok answers left →
      ∀ answer∈answers, answer.2.preempted≠[] ∨ FitsPool cache answer.1 → answer.2.ok=true := by
  induction sequences with
  | nil =>
    intro cache answers _ _ hx answer hm
    rw [←(EStateM.Result.ok.inj hx).1] at hm
    exact absurd hm List.not_mem_nil
  | cons sequence rest ih =>
    intro cache answers h hd hx answer hm hc
    obtain ⟨outcome,later,rfl,hk,hg,hi,hy⟩ := extendEach_cons h hx
    obtain ⟨hn,hd⟩ := List.nodup_cons.mp hd
    rcases List.mem_cons.mp hm with rfl | hm
    · rcases hc with hp | hf
      · by_contra ho
        exact hp (hg.refused (Bool.eq_false_iff.mpr ho))
      · exact hg.ok_iff.mpr hf
    · refine ih hi hd hy answer hm (hc.imp id ?_)
      intro hf
      have hr : answer.1∈rest := by
        rw [←extendEach_keys rest hi hy]
        exact List.mem_map_of_mem hm
      have ho := hg.others answer.1 (fun he => hn (he ▸ hr))
      unfold FitsPool at hf ⊢
      rw [hg.total_eq,hg.size_eq]
      omega

/-- The cache stands in the order of the ids, and so do the rows, which
include every holder. -/
structure InOrder (running : List SequenceId) (cache : KVCacheManager) : Prop where
  rows : running.Pairwise (·<·)
  order : cache.admissionOrder.Pairwise (·<·)
  holders : ∀ sequence, 0<cache.tokensHeld sequence → sequence∈running

/-- Extending one of the rows keeps them in order. -/
theorem InOrder.grown {running : List SequenceId} {outcome : AdmissionOutcome}
    (h : InOrder running cache) (hr : sequence∈running)
    (hg : Grown cache sequence outcome left) : InOrder running left := by
  refine ⟨h.rows,by rw [hg.order_eq]; exact h.order,?_⟩
  intro other hp
  by_cases he : other=sequence
  · exact he ▸ hr
  · exact h.holders other (hp.trans_le (hg.others other he))

/-- A pass over rows leaves only rows holding tokens, and evicts only rows. -/
theorem extendEach_rows {running : List SequenceId} (sequences : List SequenceId) :
    ∀ {cache : KVCacheManager} {answers : Answers}, PoolInvariant total blockSize policy cache →
      InOrder running cache → (∀ sequence∈sequences, sequence∈running) →
      extendEach sequences cache=.ok answers left →
        InOrder running left ∧
          ∀ answer∈answers, ∀ victim∈answer.2.preempted, victim∈running := by
  induction sequences with
  | nil =>
    intro cache answers _ ho _ hx
    obtain ⟨rfl,rfl⟩ := EStateM.Result.ok.inj hx
    exact ⟨ho,nofun⟩
  | cons sequence rest ih =>
    intro cache answers h ho hs hx
    obtain ⟨outcome,later,rfl,_,hg,hi,hy⟩ := extendEach_cons h hx
    obtain ⟨hleft,hlater⟩ := ih hi (ho.grown (hs sequence List.mem_cons_self) hg)
      (fun other hm => hs other (List.mem_cons_of_mem _ hm)) hy
    refine ⟨hleft,?_⟩
    intro answer hm victim hv
    rcases List.mem_cons.mp hm with rfl | hm
    · exact ho.holders victim (hg.victims_held victim hv)
    · exact hlater answer hm victim hv

/-- The policy's choice among some rows. -/
def nextVictim (policy : PreemptionPolicy) (running : List SequenceId)
    (held : SequenceId → ℕ) (sequence : SequenceId) : Option SequenceId :=
  (victimOrder policy held (others running sequence)).head?

/-- A policy reads the holders of an order. -/
theorem victimOrder_congr {policy : PreemptionPolicy} {held : SequenceId → ℕ}
    {order order' : List SequenceId}
    (h : order.filter (fun k => decide (0<held k))=order'.filter (fun k => decide (0<held k)))
    (sequence : SequenceId) :
    victimOrder policy held (others order sequence)=
      victimOrder policy held (others order' sequence) := by
  have hf : (others order sequence).filter (fun k => decide (0<held k))=
      (others order' sequence).filter (fun k => decide (0<held k)) := by
    rw [others,others,List.filter_comm,h,List.filter_comm]
  cases policy with
  | newest => rw [victimOrder,victimOrder,newestFirst,newestFirst,List.filter_reverse,
      List.filter_reverse,hf]
  | largest => rw [victimOrder,victimOrder,largestFirst,largestFirst,hf]

/-- The policy chooses among the rows. -/
theorem chooseVictim_next {running : List SequenceId}
    (h : PoolInvariant total blockSize policy cache) (ho : InOrder running cache)
    (sequence : SequenceId) :
    cache.chooseVictim sequence=nextVictim cache.policy running cache.blocksHeld sequence := by
  rw [chooseVictim_head,nextVictim]
  refine congrArg List.head? (victimOrder_congr ?_ sequence)
  have hasc : ∀ {order : List SequenceId}, order.Pairwise (·<·) →
      (order.filter (fun k => decide (0<cache.blocksHeld k))).Pairwise (·<·) :=
    fun ho => ho.sublist List.filter_sublist
  have hnodup : ∀ {order : List SequenceId}, order.Pairwise (·<·) →
      (order.filter (fun k => decide (0<cache.blocksHeld k))).Nodup :=
    fun ho => (hasc ho).imp Nat.ne_of_lt
  refine List.Perm.eq_of_pairwise (fun a b _ _ hlt hgt => absurd hlt (Nat.lt_asymm hgt))
    (hasc ho.order) (hasc ho.rows)
    ((List.perm_ext_iff_of_nodup (hnodup ho.order) (hnodup ho.rows)).mpr ?_)
  intro k
  rw [List.mem_filter,List.mem_filter,decide_eq_true_iff]
  refine and_congr_left (fun hp => iff_of_true ?_ (ho.holders k ((blocksHeld_pos h).mp hp)))
  rw [h.mem_order]
  by_contra hn
  rw [KVCacheManager.blocksHeld,AList.lookup_eq_none.mpr hn] at hp
  exact Nat.lt_irrefl _ hp

/-- Some answer of the pass evicted for this sequence. -/
def Evictor (answers : Answers) (sequence : SequenceId) : Prop :=
  ∃ answer∈answers, answer.1=sequence ∧ answer.2.preempted≠[]

/-- Some answer of the pass evicted this sequence. -/
def Victim (answers : Answers) (sequence : SequenceId) : Prop :=
  ∃ answer∈answers, sequence∈answer.2.preempted

theorem evictor_cons {answer : SequenceId×AdmissionOutcome} {answers : Answers} :
    Evictor (answer::answers) sequence ↔
      answer.1=sequence ∧ answer.2.preempted≠[] ∨ Evictor answers sequence := by
  simp only [Evictor,List.mem_cons,or_and_right,exists_or,exists_eq_left]

theorem victim_cons {answer : SequenceId×AdmissionOutcome} {answers : Answers} :
    Victim (answer::answers) sequence ↔
      sequence∈answer.2.preempted ∨ Victim answers sequence := by
  simp only [Victim,List.mem_cons,or_and_right,exists_or,exists_eq_left]

/-- The clean rows of turns are the passes in which nobody both evicts and is
evicted, and the one to be spared is not. -/
theorem clean_iff {running : List SequenceId} (spared : Option SequenceId)
    (sequences : List SequenceId) :
    ∀ {cache : KVCacheManager} {answers : Answers} {victims evictors : List SequenceId},
      PoolInvariant total blockSize policy cache → InOrder running cache →
      (∀ sequence∈sequences, sequence∈running) → sequences.Nodup →
      extendEach sequences cache=.ok answers left →
      (Clean (nextVictim policy running) spared sequences (stockOf cache) victims evictors ↔
        (∀ sequence, Evictor answers sequence → sequence∉victims ∧ ¬Victim answers sequence) ∧
        ∀ victim, Victim answers victim → victim∉evictors ∧ spared≠some victim) := by
  induction sequences with
  | nil =>
    intro cache answers victims evictors _ _ _ _ hx
    rw [←(EStateM.Result.ok.inj hx).1]
    exact iff_of_true trivial ⟨nofun,nofun⟩
  | cons sequence rest ih =>
    intro cache answers victims evictors h ho hs hd hx
    obtain ⟨outcome,later,rfl,hk,hg,hi,hy⟩ := extendEach_cons h hx
    obtain ⟨hn,hd⟩ := List.nodup_cons.mp hd
    have hchoose := chooseVictim_next h ho sequence
    rw [h.policy_eq] at hchoose
    have hrest := @ih _ _ victims evictors hi
      (ho.grown (hs sequence List.mem_cons_self) hg)
      (fun other hm => hs other (List.mem_cons_of_mem _ hm)) hd hy
    -- what is left shows the turn's stock to those who follow
    have hleft : ∀ {b : Stock SequenceId} {victims evictors : List SequenceId},
        Shows sequence b (after (.extend sequence 1) cache) →
        (Clean (nextVictim policy running) spared rest b victims evictors ↔
          Clean (nextVictim policy running) spared rest
            (stockOf (after (.extend sequence 1) cache)) victims evictors) := fun hb =>
      clean_congr rest ⟨hb.free_eq.symm,hb.held_eq.symm,
        fun other hm => (hb.asks_eq other (fun he => hn (he ▸ hm))).symm⟩
    rcases hg.turn with ⟨hr,hp,hb⟩ | @⟨victim,ha,hf,hc,hp,hb⟩ | ⟨ha,hf,hc,hp,hl⟩
    · rw [clean_serve hr,hleft hb,hrest]
      simp only [evictor_cons,victim_cons,hp,ne_eq,not_true_eq_false,and_false,false_or,
        List.not_mem_nil]
    · have hne : victim≠sequence := (chooseVictim_holds hc).1
      rw [clean_displace ha hf (hchoose.symm.trans hc),hleft hb,ih hi
        (ho.grown (hs sequence List.mem_cons_self) hg)
        (fun other hm => hs other (List.mem_cons_of_mem _ hm)) hd hy]
      simp only [evictor_cons,victim_cons,hp,List.mem_cons,List.not_mem_nil,or_false]
      constructor
      · rintro ⟨hsv,hve,hsp,hlv,hle⟩
        refine ⟨?_,?_⟩
        · rintro other (⟨rfl,_⟩ | ho)
          · exact ⟨hsv,fun hx => hx.elim (fun he => hne he.symm)
              (fun hv => (hle _ hv).1 (.inl rfl))⟩
          · obtain ⟨ha,hb⟩ := hlv other ho
            exact ⟨fun hm => ha (.inr hm),fun hx => hx.elim (fun he => ha (.inl he)) hb⟩
        · rintro other (rfl | ho)
          · exact ⟨hve,hsp⟩
          · exact ⟨fun hm => (hle other ho).1 (.inr hm),(hle other ho).2⟩
      · intro ⟨hall,hvic⟩
        have hself := hall sequence (.inl ⟨rfl,List.cons_ne_nil _ _⟩)
        obtain ⟨hve,hsp⟩ := hvic victim (.inl rfl)
        refine ⟨hself.1,hve,hsp,?_,?_⟩
        · intro other ho
          have hx := hall other (.inr ho)
          exact ⟨fun hm => hm.elim (fun he => hx.2 (.inl he)) hx.1,fun hv => hx.2 (.inr hv)⟩
        · intro other ho
          have hx := hvic other (.inr ho)
          exact ⟨fun hm => hm.elim (fun he => hself.2 (.inr (he ▸ ho))) hx.1,hx.2⟩
    · rw [hl] at hrest
      rw [clean_refuse ha hf (hchoose.symm.trans hc),hrest]
      simp only [evictor_cons,victim_cons,hp,ne_eq,not_true_eq_false,and_false,false_or,
        List.not_mem_nil]

end CudaForge.CacheGrowth
