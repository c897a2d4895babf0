import CudaForge.CacheReservation
import CudaForge.TransitionRuns

/-!
# What every run of the cache manager keeps

`CallEffect` lists what a public call can do to a manager that satisfies
the invariant. From it follow the reachable states' partition of the pool,
the exact size of every table, and that the physical place of a token is
its own and does not move while its sequence is neither preempted nor
released.
-/

namespace CudaForge.CachePlacement

open ExceptionState PythonBuiltins CacheBlocks CacheManager CeilDivision KeyedTables CacheInvariant
open CacheReservation TransitionRuns
open CacheManager.KVCacheManager

variable {total blockSize : ℕ} {policy : PreemptionPolicy} {s t : KVCacheManager}
variable {sequence : SequenceId} {table : SequenceBlockTable}

/-- The manager after a known sequence has been forgotten. -/
def forgotten (s : KVCacheManager) (sequence : SequenceId) (table : SequenceBlockTable) :
    KVCacheManager :=
  {s with
    allocator := exclusivePool s.allocator.total s.allocator.blockSize
      (table.blocks.reverse++s.allocator.free)
    tables := s.tables.erase sequence
    admissionOrder := s.admissionOrder.filter (fun other => decide (other≠sequence))}

/-- What a call that returns did. -/
inductive CallEffect (s : KVCacheManager) : CacheCall → CacheReply → KVCacheManager → Prop
  | admittedNothing {sequence : SequenceId} :
      CallEffect s (.admitSequence sequence 0) (.outcome {}) s
  | extendedNothing {sequence : SequenceId} : CallEffect s (.extend sequence 0) (.outcome {}) s
  | admitted {sequence : SequenceId} {tokens : ℕ} {outcome : AdmissionOutcome}
      {t : KVCacheManager} (ht : 0<tokens)
      (hr : Reserves sequence tokens (s.register sequence) outcome t) :
      CallEffect s (.admitSequence sequence tokens) (.outcome outcome) t
  | extended {sequence : SequenceId} {tokens : ℕ} {outcome : AdmissionOutcome}
      {t : KVCacheManager} (ht : 0<tokens) (hr : Reserves sequence tokens s outcome t) :
      CallEffect s (.extend sequence tokens) (.outcome outcome) t
  | preemptedNothing {sequence : SequenceId} (hb : s.blocksHeld sequence=0) :
      CallEffect s (.preempt sequence) (.reclaimed 0) s
  | preempted {sequence : SequenceId} {table : SequenceBlockTable}
      (hk : s.tables.lookup sequence=some table) (hb : table.blocks≠[]) :
      CallEffect s (.preempt sequence) (.reclaimed table.blocks.length) (emptied s sequence table)
  | releasedNothing {sequence : SequenceId} (hk : sequence∉s.tables) :
      CallEffect s (.release sequence) .released s
  | released {sequence : SequenceId} {table : SequenceBlockTable}
      (hk : s.tables.lookup sequence=some table) :
      CallEffect s (.release sequence) .released (forgotten s sequence table)

/-- Forgetting a sequence keeps the pool partitioned. -/
theorem forgotten_partitioned (h : Partitioned total blockSize policy s)
    (hk : s.tables.lookup sequence=some table) :
    Partitioned total blockSize policy (forgotten s sequence table) := by
  obtain ⟨ht,hs⟩ := h.pool_fields
  refine ⟨h.size_pos,h.size_eq,h.policy_eq,by simp only [forgotten,ht,hs,exclusivePool],?_,?_,?_⟩
  · refine List.Perm.trans ?_ (h.partition_at hk)
    have hr := (List.reverse_perm table.blocks).append_right s.allocator.free
    rw [←List.append_assoc]
    exact (hr.trans List.perm_append_comm).append_right _
  · intro other found hf
    have hne : other≠sequence := by
      rintro rfl
      rw [forgotten,AList.lookup_erase] at hf
      exact absurd hf (by simp only [reduceCtorEq,not_false_eq_true])
    rw [forgotten,AList.lookup_erase_ne hne] at hf
    exact h.own_tables other found hf
  · have hkeys : (forgotten s sequence table).tables.keys=s.tables.keys.erase sequence :=
      AList.keys_erase _ _
    rw [hkeys,List.Nodup.erase_eq_filter s.tables.keys_nodup]
    have hf := h.order_exact.filter (fun other => decide (other≠sequence))
    simpa only [forgotten,bne,beq_eq_decide,decide_not,ne_eq] using hf

/-- Forgetting a sequence keeps the invariant. -/
theorem forgotten_invariant (h : PoolInvariant total blockSize policy s)
    (hk : s.tables.lookup sequence=some table) :
    PoolInvariant total blockSize policy (forgotten s sequence table) := by
  refine .of_partitioned (forgotten_partitioned h.partitioned hk) ?_
  intro other found hf
  have hne : other≠sequence := by
    rintro rfl
    rw [forgotten,AList.lookup_erase] at hf
    exact absurd hf (by simp only [reduceCtorEq,not_false_eq_true])
  rw [forgotten,AList.lookup_erase_ne hne] at hf
  exact (h.exact_tables other found hf).blocks_eq

/-- Releasing a known sequence leaves exactly the forgotten manager. -/
theorem release_meets (h : PoolInvariant total blockSize policy s)
    (hk : s.tables.lookup sequence=some table) :
    Meets (release sequence) s (fun _ t => t=forgotten s sequence table) := by
  obtain ⟨hn,hb⟩ := h.returnable hk
  have ht : s.allocator.total=total := h.totalBlocks_eq
  have hs : s.allocator.blockSize=blockSize := by rw [h.pool_eq]; rfl
  simp only [release,meets_bind,meets_get,hk,meets_set]
  refine (releaseBlocks_meets (s:={s with tables := s.tables.erase sequence}) table.blocks
    h.pool_eq hn hb).mono ?_
  rintro _ u rfl
  simp only [meets_modify,forgotten,ht,hs]

/-- A call either returns with one of the listed effects and the invariant,
or it extends an unknown sequence, raises and changes nothing. -/
theorem call_cases (h : PoolInvariant total blockSize policy s) (call : CacheCall) :
    Meets call.run s (fun reply t =>
      CallEffect s call reply t ∧ PoolInvariant total blockSize policy t) ∨
    ∃ sequence tokens, call=.extend sequence tokens ∧ 0<tokens ∧ sequence∉s.tables ∧
      call.run s=.error (.keyError s!"sequence {sequence} is not admitted") s := by
  cases call with
  | admitSequence sequence tokens =>
    refine Or.inl ?_
    simp only [CacheCall.run,meets_bind,meets_pure]
    rcases Nat.eq_zero_or_pos tokens with rfl | ht
    · exact ⟨.admittedNothing,h⟩
    · have hm := reserve_meets (register_invariant h sequence) (register_lookup s sequence) ht
      have he : Meets (admitSequence sequence tokens) s (fun outcome t =>
          Reserves sequence tokens (s.register sequence) outcome t ∧
            PoolInvariant total blockSize policy t) := by
        unfold Meets
        rw [admitSequence_eq sequence ht]
        exact hm
      exact he.mono (fun outcome t ho => ⟨.admitted ht ho.1,ho.2⟩)
  | extend sequence tokens =>
    rcases Nat.eq_zero_or_pos tokens with rfl | ht
    · refine Or.inl ?_
      simp only [CacheCall.run,meets_bind,meets_pure]
      exact ⟨.extendedNothing,h⟩
    · cases hk : s.tables.lookup sequence with
      | none =>
        refine Or.inr ⟨sequence,tokens,rfl,ht,AList.lookup_eq_none.mp hk,?_⟩
        have hr : extend sequence tokens s=
            .error (.keyError s!"sequence {sequence} is not admitted") s := by
          unfold extend reserve
          rw [if_neg (Nat.pos_iff_ne_zero.mp ht)]
          simp only [ExceptionState.bind_modify,ExceptionState.bind_get,Bool.false_eq_true,
            if_false,hk]
          rfl
        simp only [CacheCall.run,bind,EStateM.bind,hr]
      | some table =>
        refine Or.inl ?_
        simp only [CacheCall.run,meets_bind,meets_pure]
        exact (reserve_meets h hk ht).mono (fun outcome t ho => ⟨.extended ht ho.1,ho.2⟩)
  | preempt sequence =>
    refine Or.inl ?_
    simp only [CacheCall.run,preempt,meets_bind,meets_get]
    cases hk : s.tables.lookup sequence with
    | none => exact ⟨.preemptedNothing (by rw [blocksHeld,hk]),h⟩
    | some table =>
      dsimp only
      by_cases hb : table.blocks.isEmpty=true
      · rw [if_pos hb]
        refine ⟨.preemptedNothing ?_,h⟩
        rw [blocksHeld,hk]
        exact List.length_eq_zero_iff.mpr (List.isEmpty_iff.mp hb)
      · rw [if_neg hb]
        simp only [meets_bind,meets_pure]
        refine (reclaim_meets h hk).mono ?_
        rintro _ t rfl
        exact ⟨.preempted hk (fun he => hb (List.isEmpty_iff.mpr he)),emptied_invariant h hk⟩
  | release sequence =>
    refine Or.inl ?_
    simp only [CacheCall.run,meets_bind,meets_pure]
    cases hk : s.tables.lookup sequence with
    | none =>
      simp only [release,meets_bind,meets_get,hk,meets_pure]
      exact ⟨.releasedNothing (AList.lookup_eq_none.mp hk),h⟩
    | some table =>
      refine (release_meets h hk).mono ?_
      rintro _ t rfl
      exact ⟨.released hk,forgotten_invariant h hk⟩

/-- The manager a call leaves, whether it returned or raised. -/
def after (call : CacheCall) (s : KVCacheManager) : KVCacheManager :=
  match call.run s with
  | .ok _ t => t
  | .error _ t => t

/-- The sequences a call reports as evicted for its requester. -/
def evictedBy (call : CacheCall) (s : KVCacheManager) : List SequenceId :=
  match call.run s with
  | .ok (.outcome outcome) _ => outcome.preempted
  | _ => []

/-- A call neither preempts nor releases the sequence. -/
def Spares (call : CacheCall) (s : KVCacheManager) (sequence : SequenceId) : Prop :=
  match call with
  | .preempt other => other≠sequence
  | .release other => other≠sequence
  | call => sequence∉evictedBy call s

/-- Managers driven by any sequence of calls from the constructor's result. -/
def cacheMachine (blockCount blockSize : ℕ) (policy : PreemptionPolicy) :
    Machine KVCacheManager CacheCall where
  starts s := KVCacheManager.create blockCount blockSize policy=.ok s
  steps s call t := t=after call s

/-- Every reachable manager satisfies the invariant. -/
theorem reaches_invariant (h : (cacheMachine total blockSize policy).Reaches s) :
    PoolInvariant total blockSize policy s := by
  refine h.invariant ?_ ?_
  · intro s hc
    have hn : 0<total := by
      by_contra hz
      have hz' : total=0 := by omega
      subst hz'
      simp only [cacheMachine,KVCacheManager.create,BlockAllocator.create,if_true,
        reduceCtorEq] at hc
    have hs : 0<blockSize := by
      by_contra hz
      have hz' : blockSize=0 := by omega
      subst hz'
      simp only [cacheMachine,KVCacheManager.create,BlockAllocator.create,if_true,
        if_neg (Nat.pos_iff_ne_zero.mp hn),reduceCtorEq] at hc
    obtain ⟨s',hs',hi,_⟩ := create_invariant hn hs policy
    have he : s=s' := Except.ok.inj (Eq.trans (Eq.symm hc) hs')
    exact he ▸ hi
  · rintro s call _ hi rfl
    unfold after
    rcases call_cases hi call with hm | ⟨_,_,_,_,_,he⟩
    · obtain ⟨reply,t,hr,_,ht⟩ := hm.returns
      rw [hr]
      exact ht
    · rw [he]
      exact hi

/-- A table that kept its blocks and tokens and may have gained more. -/
structure Extends (table grown : SequenceBlockTable) : Prop where
  size_eq : grown.blockSize=table.blockSize
  tokens_le : table.tokens≤grown.tokens
  blocks_prefix : table.blocks <+: grown.blocks

theorem Extends.refl (table : SequenceBlockTable) : Extends table table :=
  ⟨rfl,Nat.le_refl _,List.prefix_refl _⟩

/-- A token located in a table is located at the same place once the table
has grown. -/
theorem Extends.locate {grown : SequenceBlockTable} (he : Extends table grown) {index : ℕ}
    {place : BlockId×ℕ} (hl : table.locate index=.ok place) : grown.locate index=.ok place := by
  unfold SequenceBlockTable.locate at hl ⊢
  have ht := he.tokens_le
  by_cases hi : table.tokens ≤ index
  · rw [if_pos hi] at hl
    exact absurd hl (by simp only [reduceCtorEq,not_false_eq_true])
  · rw [if_neg hi] at hl
    rw [if_neg (by omega),he.size_eq]
    cases hb : table.blocks[index/table.blockSize]? with
    | none =>
      rw [hb] at hl
      exact absurd hl (by simp only [reduceCtorEq,not_false_eq_true])
    | some block =>
      rw [hb] at hl
      obtain ⟨rest,hr⟩ := he.blocks_prefix
      have hlt : index/table.blockSize<table.blocks.length :=
        (List.getElem?_eq_some_iff.mp hb).1
      rw [←hr,List.getElem?_append_left hlt,hb]
      exact hl

/-- A granted reservation extends the requester's table and no other. -/
theorem granted_extends {requester : SequenceId} {own : SequenceBlockTable} {needed tokens : ℕ}
    (hr : s.tables.lookup requester=some own) (hk : s.tables.lookup sequence=some table) :
    ∃ grown, (granted s requester own needed tokens).tables.lookup sequence=some grown ∧
      Extends table grown := by
  by_cases he : sequence=requester
  · subst he
    have ho : own=table := Option.some.inj (hr.symm.trans hk)
    subst ho
    refine ⟨_,AList.lookup_insert _,rfl,Nat.le_add_right _ _,List.prefix_append _ _⟩
  · refine ⟨table,?_,Extends.refl table⟩
    rw [granted,AList.lookup_insert_ne he,hk]

/-- A reservation extends the table of every sequence it does not evict. -/
theorem reserves_extends {requester : SequenceId} {tokens : ℕ} {outcome : AdmissionOutcome}
    (hr : Reserves requester tokens s outcome t) (hs : sequence∉outcome.preempted)
    (hk : s.tables.lookup sequence=some table) :
    ∃ grown, t.tables.lookup sequence=some grown ∧ Extends table grown := by
  cases hr with
  | refused _ _ => exact ⟨table,hk,Extends.refl table⟩
  | fits ho _ => exact granted_extends ho hk
  | displaced ho _ he _ =>
    have hf := he.effect
    have hn := fun hm => (hf.victims_held requester hm).1 rfl
    exact granted_extends ((hf.spared_lookup requester hn).trans ho)
      ((hf.spared_lookup sequence hs).trans hk)

/-- A known sequence keeps its table when another is registered. -/
theorem register_lookup_known {other : SequenceId} (hk : s.tables.lookup sequence=some table) :
    (s.register other).tables.lookup sequence=some table := by
  unfold register
  by_cases hm : other∈s.tables
  · rwa [if_pos hm]
  · rw [if_neg hm,AList.lookup_insert_ne,hk]
    intro he
    exact hm (AList.lookup_isSome.mp (by rw [←he,hk]; rfl))

/-- A call that spares a sequence only ever extends its table. -/
theorem spared_extends (h : PoolInvariant total blockSize policy s) {call : CacheCall}
    (hs : Spares call s sequence) (hk : s.tables.lookup sequence=some table) :
    ∃ grown, (after call s).tables.lookup sequence=some grown ∧ Extends table grown := by
  rcases call_cases h call with hm | ⟨_,_,_,_,_,he⟩
  · obtain ⟨reply,t,hr,hf,_⟩ := hm.returns
    have ha : after call s=t := by rw [after,hr]
    have hv : ∀ outcome, reply=.outcome outcome → evictedBy call s=outcome.preempted := by
      intro outcome ho
      rw [evictedBy,hr,ho]
    rw [ha]
    cases hf with
    | admittedNothing => exact ⟨table,hk,Extends.refl table⟩
    | extendedNothing => exact ⟨table,hk,Extends.refl table⟩
    | admitted _ hres =>
      exact reserves_extends hres (fun hm => hs (hv _ rfl ▸ hm)) (register_lookup_known hk)
    | extended _ hres =>
      exact reserves_extends hres (fun hm => hs (hv _ rfl ▸ hm)) hk
    | preemptedNothing _ => exact ⟨table,hk,Extends.refl table⟩
    | preempted _ _ =>
      have hne : sequence≠_ := fun heq => hs heq.symm
      exact ⟨table,(emptied_lookup_ne hne).trans hk,Extends.refl table⟩
    | releasedNothing _ => exact ⟨table,hk,Extends.refl table⟩
    | released _ =>
      have hne : sequence≠_ := fun heq => hs heq.symm
      exact ⟨table,(AList.lookup_erase_ne hne).trans hk,Extends.refl table⟩
  · exact ⟨table,by rw [after,he]; exact hk,Extends.refl table⟩

/-- Every token of an exact table has a place. -/
theorem locate_of_lt (hs : 0<blockSize) (hx : ExactTable blockSize sequence table) {index : ℕ}
    (hi : index<table.tokens) :
    ∃ block, table.locate index=.ok (block,index%blockSize) ∧
      table.blocks[index/blockSize]?=some block := by
  have hc := le_ceilDiv_mul hs table.tokens
  rw [←hx.blocks_eq] at hc
  have hl : index/blockSize<table.blocks.length :=
    Nat.div_lt_of_lt_mul (by rw [Nat.mul_comm]; omega)
  refine ⟨table.blocks[index/blockSize],?_,List.getElem?_eq_getElem hl⟩
  rw [SequenceBlockTable.locate,if_neg (by omega),hx.size_eq,List.getElem?_eq_getElem hl]

/-- A located token of an exact table is one it holds, in a block it holds. -/
theorem locate_inv (hx : ExactTable blockSize sequence table) {index : ℕ} {place : BlockId×ℕ}
    (hl : table.locate index=.ok place) :
    index<table.tokens ∧ table.blocks[index/blockSize]?=some place.1 ∧
      place.2=index%blockSize := by
  unfold SequenceBlockTable.locate at hl
  by_cases hi : table.tokens ≤ index
  · rw [if_pos hi] at hl
    exact absurd hl (by simp only [reduceCtorEq,not_false_eq_true])
  · rw [if_neg hi,hx.size_eq] at hl
    cases hb : table.blocks[index/blockSize]? with
    | none =>
      rw [hb] at hl
      exact absurd hl (by simp only [reduceCtorEq,not_false_eq_true])
    | some block =>
      rw [hb,Except.ok.injEq] at hl
      exact ⟨by omega,by rw [←hl],by rw [←hl]⟩

/-- Two tokens with one physical place are the same token. -/
theorem locate_injective (h : PoolInvariant total blockSize policy s)
    {other : SequenceId} {index index' : ℕ} {place : BlockId×ℕ}
    (hl : s.locate sequence index=.ok place) (hl' : s.locate other index'=.ok place) :
    sequence=other ∧ index=index' := by
  unfold KVCacheManager.locate at hl hl'
  cases hk : s.tables.lookup sequence with
  | none =>
    rw [hk] at hl
    exact absurd hl (by simp only [reduceCtorEq,not_false_eq_true])
  | some table =>
    cases hk' : s.tables.lookup other with
    | none =>
      rw [hk'] at hl'
      exact absurd hl' (by simp only [reduceCtorEq,not_false_eq_true])
    | some table' =>
      rw [hk] at hl
      rw [hk'] at hl'
      obtain ⟨_,hb,ho⟩ := locate_inv (h.exact_tables _ _ hk) hl
      obtain ⟨_,hb',ho'⟩ := locate_inv (h.exact_tables _ _ hk') hl'
      have hd := (h.partition_at hk).nodup_iff.mpr List.nodup_range
      have hheld := List.Nodup.of_append_right hd
      by_cases he : sequence=other
      · subst he
        have ht : table=table' := Option.some.inj (hk.symm.trans hk')
        subst ht
        obtain ⟨hi,hg⟩ := List.getElem?_eq_some_iff.mp hb
        obtain ⟨hi',hg'⟩ := List.getElem?_eq_some_iff.mp hb'
        have hq : index/blockSize=index'/blockSize :=
          (List.Nodup.getElem_inj_iff (List.Nodup.of_append_left hheld)).mp (hg.trans hg'.symm)
        have hm := Nat.div_add_mod index blockSize
        have hm' := Nat.div_add_mod index' blockSize
        rw [hq] at hm
        exact ⟨rfl,by omega⟩
      · -- the two tables share a block, so the pool would list it twice
        have hmem : place.1∈table.blocks := List.mem_of_getElem? hb
        have hmem' : place.1∈heldBlocks (s.tables.erase sequence) := by
          refine mem_gather.mpr ⟨other,table',?_,List.mem_of_getElem? hb'⟩
          rw [AList.lookup_erase_ne (fun heq => he heq.symm),hk']
        exact absurd hmem' (List.disjoint_of_nodup_append hheld hmem)

/-- Reference counts of a reachable pool: one for a held block, none for a
free one. -/
theorem referenceCount_eq (h : PoolInvariant total blockSize policy s) {block : BlockId}
    (hb : block<total) :
    s.allocator.referenceCount block=.ok (if block∈s.allocator.free then 0 else 1) := by
  have hr : s.allocator.references=exclusiveCounts total s.allocator.free :=
    congrArg BlockAllocator.references h.pool_eq
  rw [BlockAllocator.referenceCount,hr,exclusiveCounts_get hb]

/-- In every reachable manager the pool is partitioned, every table is
exact, the admission order lists the known sequences, tokens have places of
their own, and a place only moves when its sequence is preempted or
released. -/
theorem reachable_placement {blockCount : ℕ}
    (hr : (cacheMachine blockCount blockSize policy).Reaches s) :
    ((s.allocator.free++heldBlocks s.tables).Perm (List.range blockCount) ∧
      (∀ block∈heldBlocks s.tables, s.allocator.referenceCount block=.ok 1) ∧
      (∀ block∈s.allocator.free, s.allocator.referenceCount block=.ok 0)) ∧
    (∀ sequence table, s.tables.lookup sequence=some table →
      table.blocks.length=table.tokenCount ⌈/⌉ blockSize ∧ table.slack<blockSize) ∧
    (s.admissionOrder.Nodup ∧
      ∀ sequence, sequence∈s.admissionOrder ↔ s.isAdmitted sequence=true) ∧
    (∀ sequence index, index<s.tokensHeld sequence →
      ∃ place, s.locate sequence index=.ok place) ∧
    (∀ sequence sequence' index index' place, s.locate sequence index=.ok place →
      s.locate sequence' index'=.ok place → sequence=sequence' ∧ index=index') ∧
    (∀ call sequence index place, Spares call s sequence →
      s.locate sequence index=.ok place → (after call s).locate sequence index=.ok place) := by
  have h := reaches_invariant hr
  have hd := h.partition.nodup_iff.mpr List.nodup_range
  refine ⟨⟨h.partition,?_,?_⟩,?_,⟨h.order_nodup,?_⟩,?_,?_,?_⟩
  · intro block hb
    have hm := List.mem_range.mp (h.partition.mem_iff.mp (List.mem_append_right _ hb))
    rw [referenceCount_eq h hm,if_neg (fun hf => List.disjoint_of_nodup_append hd hf hb)]
  · intro block hb
    have hm := List.mem_range.mp (h.partition.mem_iff.mp (List.mem_append_left _ hb))
    rw [referenceCount_eq h hm,if_pos hb]
  · intro sequence table hk
    have hx := h.exact_tables sequence table hk
    have hu := ceilDiv_mul_lt h.size_pos table.tokens
    refine ⟨hx.blocks_eq,?_⟩
    rw [SequenceBlockTable.slack,SequenceBlockTable.capacity,hx.blocks_eq,hx.size_eq]
    have hs := h.size_pos
    omega
  · intro sequence
    rw [h.mem_order,isAdmitted,decide_eq_true_iff]
  · intro sequence index hi
    unfold tokensHeld at hi
    unfold KVCacheManager.locate
    cases hk : s.tables.lookup sequence with
    | none =>
      rw [hk] at hi
      exact absurd hi (Nat.not_lt_zero _)
    | some table =>
      rw [hk] at hi
      obtain ⟨block,hb,_⟩ := locate_of_lt h.size_pos (h.exact_tables sequence table hk) hi
      exact ⟨_,hb⟩
  · intro sequence sequence' index index' place hl hl'
    exact locate_injective h hl hl'
  · intro call sequence index place hs hl
    unfold KVCacheManager.locate at hl ⊢
    cases hk : s.tables.lookup sequence with
    | none =>
      rw [hk] at hl
      exact absurd hl (by simp only [reduceCtorEq,not_false_eq_true])
    | some table =>
      rw [hk] at hl
      obtain ⟨grown,hg,he⟩ := spared_extends h hs hk
      rw [hg]
      exact he.locate hl

/-- The manager that a first admission of three tokens leaves, placed. -/
theorem first_admission_placed :
    ∃ s, (cacheMachine 4 2 .newest).Reaches s ∧ s.tokensHeld 1=3 ∧ s.blocksHeld 1=2 ∧
      (s.allocator.free++heldBlocks s.tables).Perm (List.range 4) := by
  have hr : (cacheMachine 4 2 .newest).Reaches (after (.admitSequence 1 3)
      ⟨exclusivePool 4 2 [0,1,2,3],2,.newest,∅,[],0,0⟩) := .step (.start rfl) rfl
  exact ⟨_,hr,by decide +kernel,by decide +kernel,(reachable_placement hr).1.1⟩

end CudaForge.CachePlacement
