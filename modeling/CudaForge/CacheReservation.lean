import CudaForge.CacheInvariant

/-!
# Eviction and reservation, case by case

`Evicts` is the run of the eviction loop, one constructor for each way a
turn can go; the loop's bound is never what stops it. `Reserves` lists the
ways a reservation can end. Every later fact about the manager is read off
these two relations instead of the code.
-/

namespace CudaForge.CacheReservation

open ExceptionState PythonBuiltins CacheBlocks CacheManager CeilDivision KeyedTables CacheInvariant
open CacheManager.KVCacheManager

variable {total blockSize : ℕ} {policy : PreemptionPolicy} {s t : KVCacheManager}
variable {sequence requester victim : SequenceId} {table : SequenceBlockTable}

/-- A sequence other than the requester that holds blocks. -/
def Holds (s : KVCacheManager) (requester victim : SequenceId) : Prop :=
  victim≠requester ∧ ∃ table, s.tables.lookup victim=some table ∧ table.blocks≠[]

/-- The newest-first test accepts exactly the other holders. -/
theorem evictable_iff : s.evictable requester victim=true ↔ Holds s requester victim := by
  unfold evictable Holds
  by_cases he : victim=requester
  · simp only [he,if_true,Bool.false_eq_true,ne_eq,not_true,false_and]
  · rw [if_neg he]
    cases hk : s.tables.lookup victim with
    | none => simp only [Bool.false_eq_true,reduceCtorEq,false_and,exists_false,and_false]
    | some table =>
      simp only [Bool.not_eq_true',List.isEmpty_eq_false_iff,ne_eq,he,not_false_eq_true,
        Option.some.injEq,exists_eq_left',true_and]

/-- The largest-first scan returns its running best or another holder from
the rest of the order, and an unbeaten best means nobody there holds more. -/
theorem scanLargest_spec (s : KVCacheManager) (requester : SequenceId) (order : List SequenceId) :
    ∀ (best : Option SequenceId) (most : ℕ),
      (∀ v, s.scanLargest requester order best most=some v →
        best=some v ∨ (v∈order ∧ Holds s requester v)) ∧
      (s.scanLargest requester order best most=none →
        best=none ∧ ∀ v∈order, ∀ table, v≠requester → s.tables.lookup v=some table →
          table.blocks.length ≤ most) := by
  induction order with
  | nil =>
    intro best most
    refine ⟨fun v h => Or.inl h,fun h => ⟨h,?_⟩⟩
    intro v hv
    exact absurd hv (List.not_mem_nil)
  | cons candidate rest ih =>
    intro best most
    rw [scanLargest]
    by_cases he : candidate=requester
    · rw [if_pos he]
      obtain ⟨hs,hn⟩ := ih best most
      refine ⟨fun v h => (hs v h).imp id (fun hv => ⟨List.mem_cons_of_mem _ hv.1,hv.2⟩),
        fun h => ⟨(hn h).1,?_⟩⟩
      intro v hv table hne hk
      rcases List.mem_cons.mp hv with hc | hr
      · exact absurd (hc.trans he) hne
      · exact (hn h).2 v hr table hne hk
    · rw [if_neg he]
      cases hk : s.tables.lookup candidate with
      | none =>
        obtain ⟨hs,hn⟩ := ih best most
        refine ⟨fun v h => (hs v h).imp id (fun hv => ⟨List.mem_cons_of_mem _ hv.1,hv.2⟩),
          fun h => ⟨(hn h).1,?_⟩⟩
        intro v hv table hne hv'
        rcases List.mem_cons.mp hv with hc | hr
        · rw [hc,hk] at hv'
          exact absurd hv' (by simp only [reduceCtorEq,not_false_eq_true])
        · exact (hn h).2 v hr table hne hv'
      | some found =>
        dsimp only
        by_cases hm : most<found.blocks.length
        · rw [if_pos hm]
          obtain ⟨hs,hn⟩ := ih (some candidate) found.blocks.length
          refine ⟨?_,fun h => absurd (hn h).1 (by simp only [reduceCtorEq,not_false_eq_true])⟩
          intro v h
          rcases hs v h with hb | hr
          · have hc : candidate=v := Option.some.inj hb
            have hl : found.blocks≠[] := List.ne_nil_of_length_pos (by omega)
            exact Or.inr ⟨hc ▸ List.mem_cons_self,hc ▸ he,found,hc ▸ hk,hl⟩
          · exact Or.inr ⟨List.mem_cons_of_mem _ hr.1,hr.2⟩
        · rw [if_neg hm]
          obtain ⟨hs,hn⟩ := ih best most
          refine ⟨fun v h => (hs v h).imp id (fun hv => ⟨List.mem_cons_of_mem _ hv.1,hv.2⟩),
            fun h => ⟨(hn h).1,?_⟩⟩
          intro v hv table hne hv'
          rcases List.mem_cons.mp hv with hc | hr
          · rw [hc,hk,Option.some.injEq] at hv'
            rw [←hv']
            omega
          · exact (hn h).2 v hr table hne hv'

/-- A chosen victim is a known sequence, not the requester, that holds blocks. -/
theorem chooseVictim_holds (hc : s.chooseVictim requester=some victim) :
    Holds s requester victim := by
  unfold chooseVictim at hc
  cases hp : s.policy with
  | newest =>
    rw [hp] at hc
    exact evictable_iff.mp (List.find?_some hc)
  | largest =>
    rw [hp] at hc
    rcases (scanLargest_spec s requester s.admissionOrder none 0).1 victim hc with hb | hr
    · exact absurd hb (by simp only [reduceCtorEq,not_false_eq_true])
    · exact hr.2

/-- Without a victim nobody but the requester holds a block. -/
theorem noVictim_nobody (h : Partitioned total blockSize policy s)
    (hc : s.chooseVictim requester=none) (victim : SequenceId) : ¬Holds s requester victim := by
  rintro ⟨hne,table,hk,hb⟩
  have hm : victim∈s.admissionOrder :=
    (h.mem_order victim).mpr (AList.lookup_isSome.mp (by rw [hk]; rfl))
  unfold chooseVictim at hc
  cases hp : s.policy with
  | newest =>
    rw [hp] at hc
    exact List.find?_eq_none.mp hc victim (List.mem_reverse.mpr hm)
      (evictable_iff.mpr ⟨hne,table,hk,hb⟩)
  | largest =>
    rw [hp] at hc
    have hl :=
      ((scanLargest_spec s requester s.admissionOrder none 0).2 hc).2 victim hm table hne hk
    exact hb (List.length_eq_zero_iff.mp (Nat.le_zero.mp hl))

/-- The run of the eviction loop from one state to another. -/
inductive Evicts (needed : ℕ) (requester : SequenceId) :
    KVCacheManager → List SequenceId → KVCacheManager → Prop
  | enough {s : KVCacheManager} (hf : needed ≤ s.freeBlocks) : Evicts needed requester s [] s
  | stuck {s : KVCacheManager} (hf : s.freeBlocks<needed)
      (hc : s.chooseVictim requester=none) : Evicts needed requester s [] s
  | evict {s t : KVCacheManager} {victim : SequenceId} {table : SequenceBlockTable}
      {later : List SequenceId} (hf : s.freeBlocks<needed)
      (hc : s.chooseVictim requester=some victim) (hk : s.tables.lookup victim=some table)
      (hl : Evicts needed requester (emptied s victim table) later t) :
      Evicts needed requester s (victim::later) t

/-- One mark for each table that holds blocks. -/
def holders (tables : Tables) : List Unit :=
  gather (fun table : SequenceBlockTable => if table.blocks.isEmpty then [] else [()]) tables

/-- There are no more holders than tables. -/
theorem holders_le (tables : Tables) : (holders tables).length≤tables.entries.length := by
  rw [holders,gather,List.length_flatMap]
  have hs := List.sum_le_card_nsmul (tables.entries.map (fun e =>
    (if e.2.blocks.isEmpty then [] else [()] : List Unit).length)) 1 (by
      intro x hx
      obtain ⟨e,_,rfl⟩ := List.mem_map.mp hx
      split <;> simp)
  rwa [List.length_map,smul_eq_mul,Nat.mul_one] at hs

/-- Evicting a holder leaves one holder fewer. -/
theorem holders_emptied (hk : s.tables.lookup victim=some table) (hb : table.blocks≠[]) :
    (holders (emptied s victim table).tables).length+1=(holders s.tables).length := by
  have hp := (gather_perm_erase
    (fun table : SequenceBlockTable => if table.blocks.isEmpty then [] else [()]) hk).length_eq
  rw [List.length_append,if_neg (by rwa [List.isEmpty_iff])] at hp
  simp only [holders,emptied,gather_insert,SequenceBlockTable.create,List.isEmpty_nil,if_true,
    List.nil_append]
  rw [hp,List.length_singleton,Nat.add_comm]

/-- The loop has a run from every manager, since each turn costs a holder. -/
theorem exists_evicts (needed : ℕ) (requester : SequenceId) (s : KVCacheManager) :
    ∃ evicted t, Evicts needed requester s evicted t := by
  induction hn : (holders s.tables).length generalizing s with
  | zero =>
    by_cases hf : needed ≤ s.freeBlocks
    · exact ⟨[],s,.enough hf⟩
    · refine ⟨[],s,.stuck (by omega) ?_⟩
      cases hc : s.chooseVictim requester with
      | none => rfl
      | some victim =>
        obtain ⟨_,table,hk,hb⟩ := chooseVictim_holds hc
        have he := holders_emptied hk hb
        omega
  | succ n ih =>
    by_cases hf : needed ≤ s.freeBlocks
    · exact ⟨[],s,.enough hf⟩
    · cases hc : s.chooseVictim requester with
      | none => exact ⟨[],s,.stuck (by omega) hc⟩
      | some victim =>
        obtain ⟨_,table,hk,hb⟩ := chooseVictim_holds hc
        have he := holders_emptied hk hb
        obtain ⟨later,t,hl⟩ := ih (emptied s victim table) (by omega)
        exact ⟨victim::later,t,.evict (by omega) hc hk hl⟩

/-- A run turns no more often than there are holders. -/
theorem Evicts.length_le {needed : ℕ} {evicted : List SequenceId}
    (he : Evicts needed requester s evicted t) : evicted.length≤(holders s.tables).length := by
  induction he with
  | enough _ => exact Nat.zero_le _
  | stuck _ _ => exact Nat.zero_le _
  | evict _ hc hk _ ih =>
    obtain ⟨_,found,hf,hb⟩ := chooseVictim_holds hc
    rw [hk,Option.some.injEq] at hf
    subst hf
    have hh := holders_emptied hk hb
    rw [List.length_cons]
    omega

/-- The loop follows a run whenever its bound covers the turns. -/
theorem evictLoop_follows {needed : ℕ} {evicted : List SequenceId}
    (he : Evicts needed requester s evicted t) (h : PoolInvariant total blockSize policy s) :
    ∀ turns, evicted.length≤turns →
      Meets (evictLoop needed requester turns) s (fun chosen u => chosen=evicted ∧ u=t) := by
  induction he with
  | @enough s hf =>
    intro turns _
    cases turns with
    | zero => exact ⟨rfl,rfl⟩
    | succ turns =>
      simp only [evictLoop,meets_bind,meets_get]
      rw [if_neg (by omega)]
      exact ⟨rfl,rfl⟩
  | @stuck s hf hc =>
    intro turns _
    cases turns with
    | zero => exact ⟨rfl,rfl⟩
    | succ turns =>
      simp only [evictLoop,meets_bind,meets_get,hc]
      rw [if_pos hf]
      exact ⟨rfl,rfl⟩
  | @evict s t victim table later hf hc hk _ ih =>
    intro turns hl
    cases turns with
    | zero => exact absurd hl (by simp only [List.length_cons]; omega)
    | succ turns =>
      simp only [evictLoop,meets_bind,meets_get,hc,hk]
      rw [if_pos hf]
      simp only [meets_bind]
      refine (reclaim_meets h hk).mono ?_
      rintro _ u rfl
      refine (ih (emptied_invariant h hk) turns
        (by simp only [List.length_cons] at hl; omega)).mono ?_
      rintro chosen u ⟨rfl,rfl⟩
      exact ⟨rfl,rfl⟩

/-- What a run of the eviction loop did to the manager. -/
structure Evicted (requester : SequenceId) (s : KVCacheManager) (evicted : List SequenceId)
    (t : KVCacheManager) : Prop where
  victims_nodup : evicted.Nodup
  victims_held : ∀ v∈evicted, Holds s requester v
  emptied_lookup : ∀ v∈evicted, t.tables.lookup v=some (.create v s.blockSize)
  spared_lookup : ∀ v, v∉evicted → t.tables.lookup v=s.tables.lookup v
  order_eq : t.admissionOrder=s.admissionOrder
  preemptions_eq : t.preemptions=s.preemptions+evicted.length
  recomputed_eq : t.recomputedTokens=s.recomputedTokens+(evicted.map s.tokensHeld).sum

/-- A victim held tokens in the looked-up table. -/
theorem tokensHeld_of_lookup (hk : s.tables.lookup sequence=some table) :
    s.tokensHeld sequence=table.tokens := by
  rw [tokensHeld,hk]
  rfl

/-- A victim held blocks in the looked-up table. -/
theorem blocksHeld_of_lookup (hk : s.tables.lookup sequence=some table) :
    s.blocksHeld sequence=table.blocks.length := by
  rw [blocksHeld,hk]

/-- Sequences with one table hold the same tokens. -/
theorem tokensHeld_congr (hk : t.tables.lookup sequence=s.tables.lookup sequence) :
    t.tokensHeld sequence=s.tokensHeld sequence := by
  rw [tokensHeld,tokensHeld,hk]

/-- Emptying another table leaves a lookup alone. -/
theorem emptied_lookup_ne {other : SequenceId} (he : other≠victim) :
    (emptied s victim table).tables.lookup other=s.tables.lookup other := by
  rw [emptied,AList.lookup_insert_ne he]

/-- An emptied table is the fresh one. -/
theorem emptied_lookup_self :
    (emptied s victim table).tables.lookup victim=some (.create victim s.blockSize) := by
  rw [emptied,AList.lookup_insert]

/-- Whoever holds blocks after an eviction held them before, and is not the
victim. -/
theorem holds_of_emptied {v : SequenceId} (hh : Holds (emptied s victim table) requester v) :
    v≠victim ∧ Holds s requester v := by
  obtain ⟨hne,found,hk,hb⟩ := hh
  by_cases he : v=victim
  · subst he
    rw [emptied_lookup_self,Option.some.injEq] at hk
    exact absurd (by rw [←hk]; rfl) hb
  · rw [emptied_lookup_ne he] at hk
    exact ⟨he,hne,found,hk,hb⟩

/-- The effect of a whole run, by induction on its turns. -/
theorem Evicts.effect {needed : ℕ} {evicted : List SequenceId}
    (he : Evicts needed requester s evicted t) : Evicted requester s evicted t := by
  induction he with
  | enough _ => exact ⟨List.nodup_nil,by simp,by simp,by simp,rfl,rfl,rfl⟩
  | stuck _ _ => exact ⟨List.nodup_nil,by simp,by simp,by simp,rfl,rfl,rfl⟩
  | @evict s t victim table later hf hc hk _ ih =>
    have hv : Holds s requester victim := chooseVictim_holds hc
    have hl : ∀ v∈later, v≠victim ∧ Holds s requester v :=
      fun v hm => holds_of_emptied (ih.victims_held v hm)
    have hn : victim∉later := fun hm => (hl victim hm).1 rfl
    refine ⟨List.nodup_cons.mpr ⟨hn,ih.victims_nodup⟩,?_,?_,?_,ih.order_eq,?_,?_⟩
    · intro v hm
      rcases List.mem_cons.mp hm with rfl | hm
      · exact hv
      · exact (hl v hm).2
    · intro v hm
      rcases List.mem_cons.mp hm with rfl | hm
      · rw [ih.spared_lookup _ hn,emptied_lookup_self]
      · exact ih.emptied_lookup v hm
    · intro v hm
      rw [List.mem_cons,not_or] at hm
      rw [ih.spared_lookup v hm.2,emptied_lookup_ne hm.1]
    · rw [ih.preemptions_eq,List.length_cons]
      simp only [emptied]
      omega
    · have ht : later.map (emptied s victim table).tokensHeld=later.map s.tokensHeld :=
        List.map_congr_left (fun v hm => tokensHeld_congr (emptied_lookup_ne (hl v hm).1))
      rw [ih.recomputed_eq,ht,List.map_cons,List.sum_cons,tokensHeld_of_lookup hk]
      simp only [emptied,SequenceBlockTable.tokenCount]
      omega

/-- The invariant survives a run. -/
theorem Evicts.invariant {needed : ℕ} {evicted : List SequenceId}
    (he : Evicts needed requester s evicted t) (h : PoolInvariant total blockSize policy s) :
    PoolInvariant total blockSize policy t := by
  induction he with
  | enough _ => exact h
  | stuck _ _ => exact h
  | evict _ _ hk _ ih => exact ih (emptied_invariant h hk)

/-- The loop runs as `Evicts` says whenever its bound covers the holders, as
the bound given by `evictUntil` does. -/
theorem evictLoop_meets (needed : ℕ) (requester : SequenceId) (turns : ℕ)
    (h : PoolInvariant total blockSize policy s) (hh : (holders s.tables).length≤turns) :
    Meets (evictLoop needed requester turns) s (fun evicted t =>
      Evicts needed requester s evicted t ∧ PoolInvariant total blockSize policy t) := by
  obtain ⟨evicted,t,he⟩ := exists_evicts needed requester s
  refine (evictLoop_follows he h turns (he.length_le.trans hh)).mono ?_
  rintro chosen u ⟨rfl,rfl⟩
  exact ⟨he,he.invariant h⟩

/-- The partition survives a run. -/
theorem Evicts.partitioned {needed : ℕ} {evicted : List SequenceId}
    (he : Evicts needed requester s evicted t) (h : Partitioned total blockSize policy s) :
    Partitioned total blockSize policy t := by
  induction he with
  | enough _ => exact h
  | stuck _ _ => exact h
  | evict _ _ hk _ ih => exact ih (emptied_partitioned h hk)

/-- A run stops because enough is free or because nobody else holds a block. -/
theorem Evicts.stops {needed : ℕ} {evicted : List SequenceId}
    (he : Evicts needed requester s evicted t) :
    needed≤t.freeBlocks ∨ t.chooseVictim requester=none := by
  induction he with
  | enough hf => exact Or.inl hf
  | stuck _ hc => exact Or.inr hc
  | evict _ _ _ _ ih => exact ih

/-- Nothing is reclaimable when nobody else holds a block. -/
theorem reclaimable_eq_zero (hn : ∀ v, ¬Holds s requester v) :
    s.reclaimableBlocks requester=0 := by
  unfold reclaimableBlocks
  rw [List.sum_eq_zero_iff]
  intro x hx
  obtain ⟨⟨key,found⟩,he,rfl⟩ := List.mem_map.mp hx
  obtain ⟨hm,hne⟩ := List.mem_filter.mp he
  have hk : s.tables.lookup key=some found := mem_entries_iff.mp hm
  by_contra hb
  exact hn key ⟨of_decide_eq_true hne,found,hk,fun h => hb (by simp only [h,List.length_nil])⟩

/-- The requester's table is not touched by a run. -/
theorem Evicts.spares {needed : ℕ} {evicted : List SequenceId}
    (he : Evicts needed requester s evicted t) :
    requester∉evicted ∧ t.tables.lookup requester=s.tables.lookup requester := by
  have hr := he.effect
  have hs : requester∉evicted := fun hm => (hr.victims_held requester hm).1 rfl
  exact ⟨hs,hr.spared_lookup requester hs⟩

/-- A run within reach of the demand reaches it, whatever the tokens. -/
theorem Evicts.covers {needed : ℕ} {evicted : List SequenceId}
    (he : Evicts needed requester s evicted t) (h : Partitioned total blockSize policy s)
    (hk : s.tables.lookup requester=some table) (hn : table.blocks.length+needed≤total) :
    needed≤t.freeBlocks := by
  rcases he.stops with hf | hc
  · exact hf
  · have ht := he.partitioned h
    have hz := reclaimable_eq_zero (noVictim_nobody ht hc)
    have ha := ht.reclaimable_add_own (he.spares.2.trans hk)
    omega

/-- A run started within reach of the demand reaches it. -/
theorem Evicts.reaches {needed : ℕ} {evicted : List SequenceId}
    (he : Evicts needed requester s evicted t) (h : PoolInvariant total blockSize policy s)
    (hk : s.tables.lookup requester=some table) (hn : table.blocks.length+needed≤total) :
    needed≤t.freeBlocks := he.covers h.partitioned hk hn

/-- How the free blocks come to cover a demand. -/
inductive MakesRoom (needed : ℕ) (sequence : SequenceId) (s : KVCacheManager) :
    AdmissionOutcome → KVCacheManager → Prop
  | fits (hf : needed ≤ s.freeBlocks) : MakesRoom needed sequence s ⟨.admitted,[]⟩ s
  | displaced {evicted : List SequenceId} {t : KVCacheManager} (hf : s.freeBlocks<needed)
      (he : Evicts needed sequence s evicted t) (ht : needed≤t.freeBlocks) :
      MakesRoom needed sequence s ⟨.preemptedOthers,evicted⟩ t

/-- Room can be made for every demand that the pool can meet. -/
theorem exists_makesRoom {needed : ℕ} (h : Partitioned total blockSize policy s)
    (hk : s.tables.lookup sequence=some table) (hn : table.blocks.length+needed≤total) :
    ∃ outcome t, MakesRoom needed sequence s outcome t := by
  by_cases hf : needed ≤ s.freeBlocks
  · exact ⟨_,s,.fits hf⟩
  · obtain ⟨evicted,t,he⟩ := exists_evicts needed sequence s
    exact ⟨_,t,.displaced (by omega) he (he.covers h hk hn)⟩

/-- Room is made by evicting others only. -/
theorem MakesRoom.facts {needed : ℕ} {outcome : AdmissionOutcome}
    (hm : MakesRoom needed sequence s outcome t) (h : Partitioned total blockSize policy s) :
    Partitioned total blockSize policy t ∧ needed≤t.freeBlocks ∧
      t.tables.lookup sequence=s.tables.lookup sequence ∧ outcome.ok=true ∧
      sequence∉outcome.preempted := by
  cases hm with
  | fits hf => exact ⟨h,hf,rfl,rfl,List.not_mem_nil⟩
  | displaced _ he ht => exact ⟨he.partitioned h,ht,he.spares.2,rfl,he.spares.1⟩

/-- The manager after a table has been given `needed` blocks and `tokens`
tokens. -/
def granted (s : KVCacheManager) (sequence : SequenceId) (table : SequenceBlockTable)
    (needed tokens : ℕ) : KVCacheManager :=
  {s with
    allocator := exclusivePool s.allocator.total s.allocator.blockSize
      (s.allocator.free.drop needed)
    tables := s.tables.insert sequence {table with
      blocks := table.blocks++s.allocator.free.take needed
      tokens := table.tokens+tokens}}

/-- Appending blocks takes them off the front of the free stack, one by one. -/
theorem appendBlocks_meets (sequence : SequenceId) (needed : ℕ) :
    ∀ {s : KVCacheManager} {free : List BlockId} (table : SequenceBlockTable),
      s.allocator=exclusivePool total blockSize free → free.Nodup → needed≤free.length →
      Meets (appendBlocks sequence needed table) s (fun grown t =>
        grown={table with blocks := table.blocks++free.take needed} ∧
        t={s with
          allocator := exclusivePool total blockSize (free.drop needed), tables := t.tables} ∧
        ∀ filled, t.tables.insert sequence filled=s.tables.insert sequence filled) := by
  induction needed with
  | zero =>
    intro s free table hp _ _
    simp only [appendBlocks,meets_pure,List.take_zero,List.append_nil,List.drop_zero,←hp,
      implies_true,and_self]
  | succ needed ih =>
    intro s free table hp hn hl
    cases free with
    | nil => exact absurd hl (by simp only [List.length_nil]; omega)
    | cons block rest =>
      obtain ⟨hb,hr⟩ := List.nodup_cons.mp hn
      have ha := allocate_exclusive total blockSize hb
      rw [←hp] at ha
      simp only [appendBlocks,meets_bind,meets_get,ha,meets_set]
      have hi := ih (s:={s with
          allocator := exclusivePool total blockSize rest
          tables := s.tables.insert sequence (table.appendBlock block)})
        (table.appendBlock block) rfl hr (by simp only [List.length_cons] at hl; omega)
      refine hi.mono ?_
      rintro grown t ⟨hg,ht,hf⟩
      refine ⟨?_,?_,?_⟩
      · rw [hg]
        simp only [SequenceBlockTable.appendBlock,List.append_assoc,List.singleton_append,
          List.take_succ_cons]
      · rw [ht]
        simp only [List.drop_succ_cons]
      · intro filled
        rw [hf filled,AList.insert_insert]

/-- How the body of a reservation for a known sequence can end. -/
inductive Reserves (sequence : SequenceId) (tokens : ℕ) (s : KVCacheManager) :
    AdmissionOutcome → KVCacheManager → Prop
  | refused {table : SequenceBlockTable} (hk : s.tables.lookup sequence=some table)
      (hn : s.totalBlocks<table.blocks.length+s.additionalBlocksFor sequence tokens) :
      Reserves sequence tokens s ⟨.insufficientCache,[]⟩ s
  | fits {table : SequenceBlockTable} (hk : s.tables.lookup sequence=some table)
      (hf : s.additionalBlocksFor sequence tokens ≤ s.freeBlocks) :
      Reserves sequence tokens s ⟨.admitted,[]⟩
        (granted s sequence table (s.additionalBlocksFor sequence tokens) tokens)
  | displaced {table : SequenceBlockTable} {evicted : List SequenceId} {t : KVCacheManager}
      (hk : s.tables.lookup sequence=some table)
      (hf : s.freeBlocks<s.additionalBlocksFor sequence tokens)
      (he : Evicts (s.additionalBlocksFor sequence tokens) sequence s evicted t)
      (ht : s.additionalBlocksFor sequence tokens≤t.freeBlocks) :
      Reserves sequence tokens s ⟨.preemptedOthers,evicted⟩
        (granted t sequence table (s.additionalBlocksFor sequence tokens) tokens)

/-- The blocks held and the further ones asked for cover exactly the tokens. -/
theorem additional_exact (h : PoolInvariant total blockSize policy s)
    (hk : s.tables.lookup sequence=some table) (tokens : ℕ) :
    table.blocks.length+s.additionalBlocksFor sequence tokens=
      (table.tokens+tokens) ⌈/⌉ blockSize := by
  have hx := h.exact_tables sequence table hk
  have hs := h.size_pos
  have hb := hx.blocks_eq
  have hcap : table.capacity=table.blocks.length*blockSize := by
    rw [SequenceBlockTable.capacity,hx.size_eq]
  rw [additionalBlocksFor,hk]
  dsimp only [SequenceBlockTable.tokenCount]
  by_cases hc : table.tokens+tokens≤table.capacity
  · rw [if_pos hc,Nat.add_zero,hb]
    rw [hcap,hb] at hc
    exact (ceilDiv_eq_of_le hs (Nat.le_add_right _ _) hc).symm
  · rw [if_neg hc,h.size_eq,pyCeilDiv_eq hs,hcap]
    exact ceilDiv_sub_add hs (by omega)

/-- A granted reservation keeps the pool partitioned, whatever tokens it
records. -/
theorem granted_partitioned (h : Partitioned total blockSize policy s)
    (hk : s.tables.lookup sequence=some table) (recorded needed tokens : ℕ) :
    Partitioned total blockSize policy
      (granted s sequence {table with tokens := recorded} needed tokens) := by
  obtain ⟨ht,hs⟩ := h.pool_fields
  have hm : sequence∈s.tables := AList.lookup_isSome.mp (by rw [hk]; rfl)
  have hg := h.own_tables sequence table hk
  refine ⟨h.size_pos,h.size_eq,h.policy_eq,by simp only [granted,ht,hs,exclusivePool],?_,?_,?_⟩
  · -- the taken prefix of the stack joins the table's own blocks
    have hp := h.partition_at hk
    refine List.Perm.trans ?_ hp
    simp only [granted,heldBlocks,gather_insert,exclusivePool]
    have hq : (s.allocator.free.drop needed++(table.blocks++s.allocator.free.take needed)).Perm
        (s.allocator.free++table.blocks) := by
      have ha : (s.allocator.free.drop needed++table.blocks++s.allocator.free.take needed).Perm
          (s.allocator.free.take needed++(s.allocator.free.drop needed++table.blocks)) :=
        List.perm_append_comm
      rwa [←List.append_assoc (List.take _ _),List.take_append_drop,List.append_assoc] at ha
    have hr := hq.append_right (heldBlocks (s.tables.erase sequence))
    simpa only [List.append_assoc,heldBlocks] using hr
  · intro other found hf'
    by_cases he : other=sequence
    · subst he
      rw [granted,AList.lookup_insert,Option.some.injEq] at hf'
      subst hf'
      exact hg
    · rw [granted,AList.lookup_insert_ne he] at hf'
      exact h.own_tables other found hf'
  · have hkeys : (granted s sequence {table with tokens := recorded} needed tokens).tables.keys=
        sequence::s.tables.keys.erase sequence := AList.keys_insert _
    rw [hkeys]
    exact h.order_exact.trans (List.perm_cons_erase (AList.mem_keys.mp hm))

/-- A granted reservation keeps the invariant. -/
theorem granted_invariant (h : PoolInvariant total blockSize policy s)
    (hk : s.tables.lookup sequence=some table) {needed tokens : ℕ} (hf : needed ≤ s.freeBlocks)
    (hx : table.blocks.length+needed=(table.tokens+tokens) ⌈/⌉ blockSize) :
    PoolInvariant total blockSize policy (granted s sequence table needed tokens) := by
  refine .of_partitioned (granted_partitioned h.partitioned hk table.tokens needed tokens)
    (exact_insert h ?_)
  have hl : needed ≤ s.allocator.free.length := hf
  rw [List.length_append,List.length_take,Nat.min_eq_left hl,hx]

/-- Filling a table that has enough free blocks at hand. -/
theorem fill_meets (h : PoolInvariant total blockSize policy s) {needed tokens : ℕ}
    (hz : table.blockSize=blockSize) (hf : needed ≤ s.freeBlocks)
    (hx : table.blocks.length+needed=(table.tokens+tokens) ⌈/⌉ blockSize)
    (outcome : AdmissionOutcome) :
    Meets (do
      let grown ← appendBlocks sequence needed table
      let filled ← raising (grown.addTokens tokens)
      modify (fun s : KVCacheManager => {s with tables := s.tables.insert sequence filled})
      pure outcome) s (fun result t =>
        result=outcome ∧ t=granted s sequence table needed tokens) := by
  have hn : s.allocator.free.Nodup :=
    List.Nodup.of_append_left (h.partition.nodup_iff.mpr List.nodup_range)
  have ht : s.allocator.total=total := h.totalBlocks_eq
  have hs : s.allocator.blockSize=blockSize := by rw [h.pool_eq]; rfl
  simp only [meets_bind]
  refine (appendBlocks_meets sequence needed table h.pool_eq hn hf).mono ?_
  rintro grown t ⟨rfl,hu,hi⟩
  have hl : needed ≤ s.allocator.free.length := hf
  have hc := le_ceilDiv_mul h.size_pos (table.tokens+tokens)
  have ha : (SequenceBlockTable.addTokens
      {table with blocks := table.blocks++s.allocator.free.take needed} tokens)=
        .ok {table with
          blocks := table.blocks++s.allocator.free.take needed
          tokens := table.tokens+tokens} := by
    rw [SequenceBlockTable.addTokens,if_neg]
    simp only [SequenceBlockTable.capacity,List.length_append,List.length_take,
      Nat.min_eq_left hl,hz,hx]
    omega
  simp only [ha,meets_raising_ok,meets_modify,meets_pure,true_and]
  rw [hi,hu]
  simp only [granted,ht,hs]

/-- A reservation of some tokens for a known sequence ends in one of the
three listed ways, and never raises. -/
theorem reserve_meets (h : PoolInvariant total blockSize policy s)
    (hk : s.tables.lookup sequence=some table) {tokens : ℕ} (ht : 0<tokens) :
    Meets (reserve sequence tokens false) s (fun outcome t =>
      Reserves sequence tokens s outcome t ∧ PoolInvariant total blockSize policy t) := by
  have hx := additional_exact h hk tokens
  have hr := h.reclaimable_add_own hk
  have hto := h.totalBlocks_eq
  have hg := h.exact_tables sequence table hk
  simp only [reserve,if_neg (Nat.pos_iff_ne_zero.mp ht),meets_bind,meets_modify,meets_get,
    Bool.false_eq_true,if_false,hk]
  by_cases hl : s.totalBlocks<s.additionalBlocksFor sequence tokens
  · rw [if_pos hl]
    exact ⟨.refused hk (by omega),h⟩
  · rw [if_neg hl]
    simp only [meets_bind,makeRoom,meets_get]
    by_cases hf : s.freeBlocks<s.additionalBlocksFor sequence tokens
    · rw [if_pos hf]
      simp only [meets_bind,evictUntil,meets_get]
      by_cases hn : s.freeBlocks+s.reclaimableBlocks sequence<s.additionalBlocksFor sequence tokens
      · rw [if_pos hn]
        simp only [meets_pure,if_pos hf]
        exact ⟨.refused hk (by omega),h⟩
      · rw [if_neg hn]
        refine (evictLoop_meets _ sequence _ h (holders_le s.tables)).mono ?_
        rintro evicted t ⟨he,hi⟩
        have hreach := he.reaches h hk (by omega)
        have hkt := he.spares.2.trans hk
        rw [if_neg (by omega)]
        refine (fill_meets hi hg.size_eq hreach hx _).mono ?_
        rintro outcome u ⟨rfl,rfl⟩
        exact ⟨.displaced hk hf he hreach,granted_invariant hi hkt hreach hx⟩
    · rw [if_neg hf]
      refine (fill_meets h hg.size_eq (by omega) hx _).mono ?_
      rintro outcome u ⟨rfl,rfl⟩
      exact ⟨.fits hk (by omega),granted_invariant h hk (by omega) hx⟩

/-- Registering keeps the pool partitioned. -/
theorem register_partitioned (h : Partitioned total blockSize policy s) (sequence : SequenceId) :
    Partitioned total blockSize policy (s.register sequence) := by
  unfold register
  by_cases hm : sequence∈s.tables
  · rwa [if_pos hm]
  · rw [if_neg hm]
    refine ⟨h.size_pos,h.size_eq,h.policy_eq,h.pool_eq,?_,?_,?_⟩
    · have he := h.partition
      simp only [heldBlocks,gather_insert,SequenceBlockTable.create,List.nil_append,
        gather_erase_of_unknown _ hm] at he ⊢
      exact he
    · intro other found hk
      by_cases he : other=sequence
      · subst he
        rw [AList.lookup_insert,Option.some.injEq] at hk
        subst hk
        exact ⟨rfl,h.size_eq⟩
      · rw [AList.lookup_insert_ne he] at hk
        exact h.own_tables other found hk
    · have hkeys : (s.tables.insert sequence
          (SequenceBlockTable.create sequence s.blockSize)).keys=sequence::s.tables.keys := by
        rw [AList.keys_insert,List.erase_of_not_mem (fun hs => hm (AList.mem_keys.mpr hs))]
      rw [hkeys]
      exact (List.perm_append_singleton sequence s.admissionOrder).trans (h.order_exact.cons _)

/-- Registering keeps the invariant. -/
theorem register_invariant (h : PoolInvariant total blockSize policy s) (sequence : SequenceId) :
    PoolInvariant total blockSize policy (s.register sequence) := by
  refine .of_partitioned (register_partitioned h.partitioned sequence) ?_
  unfold register
  by_cases hm : sequence∈s.tables
  · rw [if_pos hm]
    exact fun other found hk => (h.exact_tables other found hk).blocks_eq
  · rw [if_neg hm]
    exact exact_insert h (exact_create h sequence)

/-- A registered sequence is known: by its old table, or by an empty one. -/
theorem register_lookup (s : KVCacheManager) (sequence : SequenceId) :
    (s.register sequence).tables.lookup sequence=
      some ((s.tables.lookup sequence).getD (.create sequence s.blockSize)) := by
  unfold register
  by_cases hm : sequence∈s.tables
  · rw [if_pos hm]
    obtain ⟨found,hf⟩ := Option.isSome_iff_exists.mp (AList.lookup_isSome.mpr hm)
    rw [hf,Option.getD_some]
  · rw [if_neg hm,AList.lookup_insert,AList.lookup_eq_none.mpr hm,Option.getD_none]

/-- Admission is extension after registering. -/
theorem admitSequence_eq (sequence : SequenceId) {tokens : ℕ} (ht : 0<tokens)
    (s : KVCacheManager) :
    admitSequence sequence tokens s=extend sequence tokens (s.register sequence) := by
  unfold admitSequence extend reserve
  rw [if_neg (Nat.pos_iff_ne_zero.mp ht),if_neg (Nat.pos_iff_ne_zero.mp ht)]
  rfl

end CudaForge.CacheReservation
