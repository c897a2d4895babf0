import CudaForge.CacheScripts

/-!
# Runs of the native cache manager

The native manager after any calls with `size_t` token counts, in a pool
whose block ids fit their type. Its state is the shadow of a partitioned
Python manager; `WordEffect` lists what a call does to that manager, whether
it returns or raises. When one block more than the pool still has a capacity
within `size_t`, every table covers its tokens and no exception of a
reservation leaves anything behind.
-/

namespace CudaForge.NativeRuns

open ExceptionState CacheBlocks CacheManager CeilDivision CacheInvariant CacheReservation
open CachePlacement CacheNative CacheConformance CacheScripts TransitionRuns
open CacheManager.KVCacheManager (register)

variable {total blockSize tokens : ℕ} {policy : PreemptionPolicy} {s t : KVCacheManager}
variable {sequence : SequenceId} {table : SequenceBlockTable} {held own : ℕ}

/-- The native manager a call leaves, whether it returned or raised. -/
def nativeAfter (call : CacheCall) (u : NativeManager) : NativeManager :=
  (answered (runNative call u)).2

/-- The token count of a call is a `size_t`. -/
def WordCall : CacheCall → Prop
  | .admitSequence _ tokens => tokens<2^64
  | .extend _ tokens => tokens<2^64
  | .preempt _ => True
  | .release _ => True

/-- Native managers driven by any sequence of calls from the constructor's
result. -/
def nativeMachine (blockCount blockSize : ℕ) (policy : PreemptionPolicy) :
    Machine NativeManager CacheCall where
  starts u := NativeManager.create blockCount blockSize policy=.ok u
  steps u call v := WordCall call ∧ v=nativeAfter call u

/-- How a native reservation for a known sequence can end; nothing is handed
back when it raised. -/
inductive WordReserves (total blockSize : ℕ) (sequence : SequenceId) (tokens : ℕ)
    (s : KVCacheManager) : Option AdmissionOutcome → KVCacheManager → Prop
  | refused {table : SequenceBlockTable} (hk : s.tables.lookup sequence=some table)
      (hn : total<table.blocks.length+(shadow s).additionalBlocksFor sequence tokens) :
      WordReserves total blockSize sequence tokens s (some ⟨.insufficientCache,[]⟩) s
  | served {table : SequenceBlockTable} {outcome : AdmissionOutcome} {mid : KVCacheManager}
      (hk : s.tables.lookup sequence=some table)
      (hn : table.blocks.length+(shadow s).additionalBlocksFor sequence tokens≤total)
      (hm : MakesRoom ((shadow s).additionalBlocksFor sequence tokens) sequence s outcome mid)
      (ho : ¬Overflows blockSize table ((shadow s).additionalBlocksFor sequence tokens) tokens) :
      WordReserves total blockSize sequence tokens s (some outcome)
        (wordGranted mid sequence table ((shadow s).additionalBlocksFor sequence tokens) tokens)
  | overflowed {table : SequenceBlockTable} {outcome : AdmissionOutcome} {mid : KVCacheManager}
      (hk : s.tables.lookup sequence=some table)
      (hn : table.blocks.length+(shadow s).additionalBlocksFor sequence tokens≤total)
      (hm : MakesRoom ((shadow s).additionalBlocksFor sequence tokens) sequence s outcome mid)
      (ho : Overflows blockSize table ((shadow s).additionalBlocksFor sequence tokens) tokens) :
      WordReserves total blockSize sequence tokens s none
        (granted mid sequence table ((shadow s).additionalBlocksFor sequence tokens) 0)

/-- What a native call did, read on the manager it shadows. -/
inductive WordEffect (total blockSize : ℕ) (s : KVCacheManager) :
    CacheCall → Option CacheReply → KVCacheManager → Prop
  | admittedNothing {sequence : SequenceId} :
      WordEffect total blockSize s (.admitSequence sequence 0) (some (.outcome {})) s
  | extendedNothing {sequence : SequenceId} :
      WordEffect total blockSize s (.extend sequence 0) (some (.outcome {})) s
  | admitted {sequence : SequenceId} {tokens : ℕ} {outcome : Option AdmissionOutcome}
      {t : KVCacheManager} (ht : 0<tokens)
      (hr : WordReserves total blockSize sequence tokens (s.register sequence) outcome t) :
      WordEffect total blockSize s (.admitSequence sequence tokens) (outcome.map .outcome) t
  | extended {sequence : SequenceId} {tokens : ℕ} {outcome : Option AdmissionOutcome}
      {t : KVCacheManager} (ht : 0<tokens)
      (hr : WordReserves total blockSize sequence tokens s outcome t) :
      WordEffect total blockSize s (.extend sequence tokens) (outcome.map .outcome) t
  | extendedUnknown {sequence : SequenceId} {tokens : ℕ} (ht : 0<tokens)
      (hk : sequence∉s.tables) : WordEffect total blockSize s (.extend sequence tokens) none s
  | preemptedNothing {sequence : SequenceId} (hb : s.blocksHeld sequence=0) :
      WordEffect total blockSize s (.preempt sequence) (some (.reclaimed 0)) s
  | preempted {sequence : SequenceId} {table : SequenceBlockTable}
      (hk : s.tables.lookup sequence=some table) (hb : table.blocks≠[]) :
      WordEffect total blockSize s (.preempt sequence) (some (.reclaimed table.blocks.length))
        (emptied s sequence table)
  | releasedNothing {sequence : SequenceId} (hk : sequence∉s.tables) :
      WordEffect total blockSize s (.release sequence) (some .released) s
  | released {sequence : SequenceId} {table : SequenceBlockTable}
      (hk : s.tables.lookup sequence=some table) :
      WordEffect total blockSize s (.release sequence) (some .released)
        (forgotten s sequence table)

/-- Both managers register a sequence alike. -/
theorem shadow_register (s : KVCacheManager) (sequence : SequenceId) :
    (shadow s).register sequence=shadow (s.register sequence) := by
  have hr : (reduced s).register sequence=reduced (s.register sequence) := by
    unfold register
    by_cases hm : sequence∈s.tables
    · rw [if_pos hm,if_pos (show sequence∈(reduced s).tables from hm)]
    · rw [if_neg hm,if_neg (show sequence∉(reduced s).tables from hm)]
      rfl
  rw [shadow,image_register,hr,shadow]

/-- Every native reservation for a known sequence ends in a listed way, with
one exception. -/
theorem wordReserves_cases (h : Partitioned total blockSize policy s) (hto : total≤2^32)
    (hk : s.tables.lookup sequence=some table) (ht : 0<tokens) :
    ∃ outcome t, WordReserves total blockSize sequence tokens s outcome t ∧
      NativeManager.reserve sequence tokens false (shadow s)=
        ending overflowError outcome (shadow t) := by
  by_cases hn : total<table.blocks.length+(shadow s).additionalBlocksFor sequence tokens
  · exact ⟨_,_,.refused hk hn,nativeReserve_refused h (by omega) hk ht rfl hn⟩
  · obtain ⟨outcome,mid,hm⟩ := exists_makesRoom h hk (Nat.le_of_not_lt hn)
    have hx := nativeReserve_made h (idsFit_of_le h hto) (by omega) hk ht rfl
      (Nat.le_of_not_lt hn) hm (taken_lt_of_le (hm.facts h).1 hto)
    by_cases ho : Overflows blockSize table ((shadow s).additionalBlocksFor sequence tokens) tokens
    · rw [if_pos ho] at hx
      exact ⟨_,_,.overflowed hk (Nat.le_of_not_lt hn) hm ho,hx⟩
    · rw [if_neg ho] at hx
      exact ⟨_,_,.served hk (Nat.le_of_not_lt hn) hm ho,hx⟩

/-- So does an admission, once the sequence is registered. -/
theorem wordAdmit_cases (h : Partitioned total blockSize policy s) (hto : total≤2^32)
    (sequence : SequenceId) (ht : 0<tokens) :
    ∃ outcome t, WordReserves total blockSize sequence tokens (s.register sequence) outcome t ∧
      runNative (.admitSequence sequence tokens) (shadow s)=
        ending overflowError (outcome.map .outcome) (shadow t) := by
  obtain ⟨outcome,t,hr,hx⟩ := wordReserves_cases (register_partitioned h sequence) hto
    (register_lookup s sequence) ht
  rw [←shadow_register,←nativeAdmit_eq sequence ht] at hx
  exact ⟨outcome,t,hr,bind_ending hx CacheReply.outcome⟩

/-- And an extension of a known sequence. -/
theorem wordExtend_cases (h : Partitioned total blockSize policy s) (hto : total≤2^32)
    (hk : s.tables.lookup sequence=some table) (ht : 0<tokens) :
    ∃ outcome t, WordReserves total blockSize sequence tokens s outcome t ∧
      runNative (.extend sequence tokens) (shadow s)=
        ending overflowError (outcome.map .outcome) (shadow t) := by
  obtain ⟨outcome,t,hr,hx⟩ := wordReserves_cases h hto hk ht
  exact ⟨outcome,t,hr,bind_ending hx CacheReply.outcome⟩

/-- Every native call has a listed effect. -/
theorem word_cases (h : Partitioned total blockSize policy s) (hto : total≤2^32)
    (call : CacheCall) :
    ∃ reply t, WordEffect total blockSize s call reply t ∧
      answered (runNative call (shadow s))=(reply,shadow t) := by
  cases call with
  | admitSequence sequence tokens =>
    rcases Nat.eq_zero_or_pos tokens with rfl | ht
    · exact ⟨_,_,.admittedNothing,rfl⟩
    · obtain ⟨outcome,t,hr,hx⟩ := wordAdmit_cases h hto sequence ht
      exact ⟨_,t,.admitted ht hr,by rw [hx,answered_ending]⟩
  | extend sequence tokens =>
    rcases Nat.eq_zero_or_pos tokens with rfl | ht
    · exact ⟨_,_,.extendedNothing,rfl⟩
    · cases hk : s.tables.lookup sequence with
      | none =>
        have hn := AList.lookup_eq_none.mp hk
        have hx : runNative (.extend sequence tokens) (shadow s)=_ :=
          nativeExtend_unknown (s:=reduced s) hn ht
        exact ⟨_,_,.extendedUnknown ht hn,by rw [hx]; rfl⟩
      | some table =>
        obtain ⟨outcome,t,hr,hx⟩ := wordExtend_cases h hto hk ht
        exact ⟨_,t,.extended ht hr,by rw [hx,answered_ending]⟩
  | preempt sequence =>
    rw [runNative,answered_map,NativeManager.preempt,bind_get,shadow_lookup]
    cases hk : s.tables.lookup sequence with
    | none => exact ⟨_,_,.preemptedNothing (by rw [KVCacheManager.blocksHeld,hk]),rfl⟩
    | some table =>
      dsimp only
      by_cases hb : table.blocks.length=0
      · rw [if_pos hb]
        exact ⟨_,_,.preemptedNothing (by rw [KVCacheManager.blocksHeld,hk]; exact hb),rfl⟩
      · obtain ⟨_,u,hx,rfl⟩ := (reclaim_shadow h (idsFit_of_le h hto) hk).returns
        rw [if_neg hb,bind_ok hx]
        exact ⟨_,_,.preempted hk (fun he => hb (List.length_eq_zero_iff.mpr he)),rfl⟩
  | release sequence =>
    cases hk : s.tables.lookup sequence with
    | none =>
      refine ⟨_,_,.releasedNothing (AList.lookup_eq_none.mp hk),?_⟩
      rw [runNative,answered_map,NativeManager.release,bind_get,shadow_lookup,hk]
      rfl
    | some table =>
      obtain ⟨_,u,hx,rfl⟩ := (release_shadow h (idsFit_of_le h hto) hk).returns
      refine ⟨_,_,.released hk,?_⟩
      rw [runNative,answered_map,hx]
      rfl

/-- A reservation keeps the pool partitioned, however it ends. -/
theorem wordReserves_partitioned (h : Partitioned total blockSize policy s)
    {outcome : Option AdmissionOutcome}
    (hr : WordReserves total blockSize sequence tokens s outcome t) :
    Partitioned total blockSize policy t := by
  cases hr with
  | refused _ _ => exact h
  | served hk _ hm _ =>
    obtain ⟨hp,_,hkt,_⟩ := hm.facts h
    exact granted_partitioned hp (hkt.trans hk) _ _ _
  | @overflowed table _ _ hk _ hm _ =>
    obtain ⟨hp,_,hkt,_⟩ := hm.facts h
    exact granted_partitioned hp (hkt.trans hk) table.tokens _ _

/-- So does every call. -/
theorem wordEffect_partitioned (h : Partitioned total blockSize policy s) {call : CacheCall}
    {reply : Option CacheReply} (he : WordEffect total blockSize s call reply t) :
    Partitioned total blockSize policy t := by
  cases he with
  | admittedNothing => exact h
  | extendedNothing => exact h
  | @admitted sequence _ _ _ _ hr =>
    exact wordReserves_partitioned (register_partitioned h sequence) hr
  | extended _ hr => exact wordReserves_partitioned h hr
  | extendedUnknown _ _ => exact h
  | preemptedNothing _ => exact h
  | preempted hk _ => exact emptied_partitioned h hk
  | releasedNothing _ => exact h
  | released hk => exact forgotten_partitioned h hk

/-- Every table covers its tokens, and counts them in a `size_t`. -/
def Covered (blockSize : ℕ) (s : KVCacheManager) : Prop :=
  ∀ sequence table, s.tables.lookup sequence=some table →
    table.tokens≤table.blocks.length*blockSize ∧ table.tokens<2^64

/-- Writing a covering table keeps the tables covering. -/
theorem covered_insert (hc : Covered blockSize s) {tables : Tables}
    (ht : tables=s.tables.insert sequence table)
    (hx : table.tokens≤table.blocks.length*blockSize ∧ table.tokens<2^64) :
    ∀ other found, tables.lookup other=some found →
      found.tokens≤found.blocks.length*blockSize ∧ found.tokens<2^64 := by
  subst ht
  intro other found hf
  by_cases he : other=sequence
  · subst he
    rw [AList.lookup_insert,Option.some.injEq] at hf
    subst hf
    exact hx
  · rw [AList.lookup_insert_ne he] at hf
    exact hc other found hf

/-- An empty table covers its tokens. -/
theorem create_covers (sequence : SequenceId) (own blockSize : ℕ) :
    (SequenceBlockTable.create sequence own).tokens≤
        (SequenceBlockTable.create sequence own).blocks.length*blockSize ∧
      (SequenceBlockTable.create sequence own).tokens<2^64 :=
  ⟨Nat.zero_le _,by simp only [SequenceBlockTable.create]; omega⟩

/-- Evictions keep the tables covering. -/
theorem evicts_covered {needed : ℕ} {requester : SequenceId} {evicted : List SequenceId}
    (he : Evicts needed requester s evicted t) (hc : Covered blockSize s) :
    Covered blockSize t := by
  induction he with
  | enough _ => exact hc
  | stuck _ _ => exact hc
  | evict _ _ _ _ ih => exact ih (covered_insert hc rfl (create_covers _ _ _))

/-- Registering keeps the tables covering. -/
theorem register_covered (hc : Covered blockSize s) (sequence : SequenceId) :
    Covered blockSize (s.register sequence) := by
  unfold register
  by_cases hm : sequence∈s.tables
  · rwa [if_pos hm]
  · rw [if_neg hm]
    exact covered_insert hc rfl (create_covers _ _ _)

/-- A grant whose tokens are covered keeps the tables covering. -/
theorem granted_covered (hc : Covered blockSize s) {needed : ℕ} (hf : needed ≤ s.freeBlocks)
    (recorded : ℕ) (hx : recorded≤(table.blocks.length+needed)*blockSize ∧ recorded<2^64) :
    Covered blockSize (granted s sequence {table with tokens := recorded} needed 0) := by
  have hl : needed ≤ s.allocator.free.length := hf
  refine covered_insert hc rfl ?_
  simp only [List.length_append,List.length_take,Nat.min_eq_left hl,Nat.add_zero]
  exact hx

/-- A reservation keeps the tables covering, however it ends. -/
theorem wordReserves_covered (h : Partitioned total blockSize policy s)
    (hc : Covered blockSize s) {outcome : Option AdmissionOutcome}
    (hr : WordReserves total blockSize sequence tokens s outcome t) : Covered blockSize t := by
  have hmid : ∀ {needed : ℕ} {outcome : AdmissionOutcome} {mid : KVCacheManager},
      MakesRoom needed sequence s outcome mid → Covered blockSize mid := by
    intro needed outcome mid hm
    cases hm with
    | fits _ => exact hc
    | displaced _ he _ => exact evicts_covered he hc
  cases hr with
  | refused _ _ => exact hc
  | served _ _ hm ho =>
    rw [Overflows,Nat.not_lt] at ho
    exact granted_covered (hmid hm) (hm.facts h).2.1 _
      ⟨ho.trans (Nat.mod_le _ _),Nat.mod_lt _ (by omega)⟩
  | @overflowed table _ _ hk _ hm _ =>
    obtain ⟨hcov,hlt⟩ := hc sequence table hk
    exact granted_covered (hmid hm) (hm.facts h).2.1 table.tokens
      ⟨hcov.trans (Nat.mul_le_mul_right _ (Nat.le_add_right _ _)),hlt⟩

/-- So does every call. -/
theorem wordEffect_covered (h : Partitioned total blockSize policy s) (hc : Covered blockSize s)
    {call : CacheCall} {reply : Option CacheReply}
    (he : WordEffect total blockSize s call reply t) : Covered blockSize t := by
  cases he with
  | admittedNothing => exact hc
  | extendedNothing => exact hc
  | @admitted sequence _ _ _ _ hr =>
    exact wordReserves_covered (register_partitioned h sequence) (register_covered hc sequence) hr
  | extended _ hr => exact wordReserves_covered h hc hr
  | extendedUnknown _ _ => exact hc
  | preemptedNothing _ => exact hc
  | preempted _ _ => exact covered_insert hc rfl (create_covers _ _ _)
  | releasedNothing _ => exact hc
  | @released sequence table hk =>
    intro other found hf
    have hne : other≠sequence := by
      rintro rfl
      rw [forgotten,AList.lookup_erase] at hf
      exact absurd hf (by simp only [reduceCtorEq,not_false_eq_true])
    rw [forgotten,AList.lookup_erase_ne hne] at hf
    exact hc other found hf

/-- A new native manager is the shadow of a new Python one. -/
theorem create_shadow {u : NativeManager}
    (hu : NativeManager.create total blockSize policy=.ok u) :
    ∃ s, u=shadow s ∧ Partitioned total blockSize policy s ∧ Covered blockSize s := by
  have hn : 0<total := by
    by_contra hz
    rw [NativeManager.create,NativeAllocator.create,if_pos (by omega)] at hu
    exact absurd hu (by simp only [reduceCtorEq,not_false_eq_true])
  have hs : 0<blockSize := by
    by_contra hz
    rw [NativeManager.create,NativeAllocator.create,if_neg (by omega),if_pos (by omega)] at hu
    exact absurd hu (by simp only [reduceCtorEq,not_false_eq_true])
  obtain ⟨s,hc,hcn,hi,ha⟩ := create_image hn hs policy
  obtain ⟨s',hc',_,htables,_⟩ := create_invariant hn hs policy
  rw [hc,Except.ok.injEq] at hc'
  subst hc'
  have hu' : u=image s := Except.ok.inj (hu.symm.trans hcn)
  refine ⟨s,hu'.trans (shadow_eq_image ha (by omega)).symm,hi.partitioned,?_⟩
  intro sequence table hk
  rw [htables,AList.lookup_empty] at hk
  exact absurd hk (by simp only [reduceCtorEq,not_false_eq_true])

/-- Every reachable native manager is the shadow of a partitioned one whose
tables cover their tokens. -/
theorem reaches_shadow {u : NativeManager} (hto : total≤2^32)
    (hr : (nativeMachine total blockSize policy).Reaches u) :
    ∃ s, u=shadow s ∧ Partitioned total blockSize policy s ∧ Covered blockSize s := by
  refine hr.invariant (fun _ hu => create_shadow hu) ?_
  rintro u call v ⟨s,rfl,h,hc⟩ ⟨_,rfl⟩
  obtain ⟨reply,t,he,hx⟩ := word_cases h hto call
  exact ⟨t,by rw [nativeAfter,hx],wordEffect_partitioned h he,wordEffect_covered h hc he⟩

/-- Blocks the native manager asks for, from the tokens and blocks held. -/
def wordNeed (blockSize held own tokens : ℕ) : ℕ :=
  if word64 (held+tokens)≤word64 (own*blockSize) then 0
  else word64 (word64 (held+tokens)-word64 (own*blockSize)+blockSize-1)/blockSize

/-- The need of a known sequence. -/
theorem additional_word (h : Partitioned total blockSize policy s)
    (hk : s.tables.lookup sequence=some table) (tokens : ℕ) :
    (shadow s).additionalBlocksFor sequence tokens=
      wordNeed blockSize table.tokens table.blocks.length tokens := by
  have hs : (shadow s).blockSize=blockSize := h.size_eq
  rw [NativeManager.additionalBlocksFor,shadow_lookup,hk]
  dsimp only
  rw [nativeCapacity,(h.own_tables sequence table hk).2,hs,wordNeed]

/-- Block counts of the pool have capacities within `size_t`. -/
theorem capacity_fits (hfit : (total+1)*blockSize≤2^64) {blocks : ℕ} (hb : blocks≤total) :
    blocks*blockSize+blockSize≤2^64 := by
  have hm := Nat.mul_le_mul_right blockSize (Nat.succ_le_succ hb)
  rw [Nat.succ_mul] at hm
  exact hm.trans hfit

/-- A sum of tokens beyond `size_t` wraps to fewer than are held, for which
the blocks held are enough. -/
theorem wordNeed_wraps (hs : 0<blockSize) (hfit : (total+1)*blockSize≤2^64) (ho : own≤total)
    (hh : held≤own*blockSize) (ht : tokens<2^64) (hw : 2^64≤held+tokens) :
    wordNeed blockSize held own tokens=0 ∧ word64 (held+tokens)=held+tokens-2^64 ∧
      word64 (held+tokens)≤word64 (own*blockSize) := by
  have hc := capacity_fits hfit ho
  have hw' : word64 (held+tokens)=held+tokens-2^64 := by
    rw [word64,Nat.mod_eq_sub_mod hw,Nat.mod_eq_of_lt (by omega)]
  have hle : word64 (held+tokens)≤word64 (own*blockSize) := by
    rw [hw',word64_of_lt (n:=own*blockSize) (by omega)]
    omega
  exact ⟨by rw [wordNeed,if_pos hle],hw',hle⟩

/-- Tokens that the pool can hold need the blocks that cover them, and fit. -/
theorem wordNeed_fits (hs : 0<blockSize) (hfit : (total+1)*blockSize≤2^64) (ho : own≤total)
    (hle : (held+tokens) ⌈/⌉ blockSize≤total) :
    own+wordNeed blockSize held own tokens=max own ((held+tokens) ⌈/⌉ blockSize) ∧
      word64 (held+tokens)≤word64 ((own+wordNeed blockSize held own tokens)*blockSize) := by
  have hc := capacity_fits hfit ho
  have hcov := (ceilDiv_le_iff hs _ _).mp hle
  have htot := capacity_fits hfit (Nat.le_refl total)
  have hw : held+tokens<2^64 := by omega
  have hcap : own*blockSize<2^64 := by omega
  rw [wordNeed,word64_of_lt hw,word64_of_lt hcap]
  by_cases hin : held+tokens≤own*blockSize
  · rw [if_pos hin,Nat.add_zero,word64_of_lt hcap]
    exact ⟨(max_eq_left ((ceilDiv_le_iff hs _ _).mpr hin)).symm,hin⟩
  · have hadd : own+word64 (held+tokens-own*blockSize+blockSize-1)/blockSize=
        (held+tokens) ⌈/⌉ blockSize := by
      rw [word64_of_lt (by omega),←Nat.ceilDiv_eq_add_pred_div,ceilDiv_sub_add hs (by omega)]
    have hown : own≤(held+tokens) ⌈/⌉ blockSize := by
      by_contra hlt
      exact hin ((ceilDiv_le_iff hs _ _).mp (by omega))
    have hu := capacity_fits hfit hle
    rw [if_neg hin,hadd,word64_of_lt (by omega)]
    exact ⟨(max_eq_right hown).symm,le_ceilDiv_mul hs _⟩

/-- Tokens that the pool cannot hold need more blocks than it has, or so many
that rounding wraps to none and the blocks held are too few. -/
theorem wordNeed_exceeds (hs : 0<blockSize) (hfit : (total+1)*blockSize≤2^64) (ho : own≤total)
    (hw : held+tokens<2^64) (hlt : total<(held+tokens) ⌈/⌉ blockSize) :
    (held+tokens-own*blockSize+blockSize-1<2^64 ∧
        total<own+wordNeed blockSize held own tokens) ∨
      (2^64≤held+tokens-own*blockSize+blockSize-1 ∧
        wordNeed blockSize held own tokens=0 ∧ word64 (own*blockSize)<word64 (held+tokens)) := by
  have hc := capacity_fits hfit ho
  have hcap : own*blockSize<2^64 := by omega
  have hout : ¬held+tokens≤own*blockSize := by
    intro hin
    have hle := (ceilDiv_le_iff hs _ _).mpr hin
    omega
  rw [wordNeed,word64_of_lt hw,word64_of_lt hcap,if_neg hout]
  by_cases hsum : held+tokens-own*blockSize+blockSize-1<2^64
  · refine Or.inl ⟨hsum,?_⟩
    rwa [word64_of_lt hsum,←Nat.ceilDiv_eq_add_pred_div,ceilDiv_sub_add hs (by omega)]
  · refine Or.inr ⟨by omega,Nat.div_eq_of_lt ?_,by omega⟩
    unfold word64
    omega

end CudaForge.NativeRuns
