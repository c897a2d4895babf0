import CudaForge.CacheGrowth
import CudaForge.SchedulerLedger

/-!
# The running sequences are the holders of the cache

Ids are issued in ascending order, so the running set and the cache's
admission order stand in the order of the ids. As long as the thread has not
crashed, a sequence that the cache knows holds tokens exactly while it runs:
what the cache evicts leaves the running set in the same step.
-/

namespace CudaForge.RunningHolders

open CacheBlocks CacheManager CacheInvariant CacheReservation CachePlacement CacheBooks ServingTypes
open ContinuousScheduler SchedulerEffects SchedulerLedger CacheGrowth TransitionRuns

variable {config : BatcherConfig} {env : Env} {s t u : Batcher}
variable {total blockSize tokens : ℕ} {policy : PreemptionPolicy} {cache : KVCacheManager}
variable {sequence : SequenceId}

/-- Running ids and admissions ascend, and the known sequences that hold
tokens are the running ones. -/
structure Aligned (s : Batcher) : Prop where
  issued : ∀ sequence∈ids s.running, sequence<s.nextId
  rows : (ids s.running).Pairwise (·<·)
  order : ∀ cache, s.cache=some cache → cache.admissionOrder.Pairwise (·<·)
  known : ∀ cache, s.cache=some cache → ∀ sequence∈cache.tables,
    sequence<s.nextId ∧ (0<cache.tokensHeld sequence ↔ sequence∈ids s.running)

/-- Only known sequences hold tokens. -/
theorem known_of_tokens (h : 0<cache.tokensHeld sequence) : sequence∈cache.tables := by
  by_contra hn
  rw [KVCacheManager.tokensHeld,AList.lookup_eq_none.mpr hn] at h
  exact Nat.lt_irrefl _ h

/-- An aligned cache stands in the order of the rows. -/
theorem Aligned.inOrder (h : Aligned s) (hc : s.cache=some cache) :
    InOrder (ids s.running) cache :=
  ⟨h.rows,h.order cache hc,
    fun sequence hp => ((h.known cache hc sequence (known_of_tokens hp)).2).mp hp⟩

/-- The four facts read the rows' ids, the cache and the next id. -/
theorem Aligned.congr (h : Aligned s) (hc : t.cache=s.cache) (hr : ids t.running=ids s.running)
    (hn : t.nextId=s.nextId) : Aligned t := by
  refine ⟨?_,?_,?_,?_⟩
  · rw [hr,hn]
    exact h.issued
  · rw [hr]
    exact h.rows
  · rw [hc]
    exact h.order
  · rw [hc,hr,hn]
    exact h.known

/-- Releasing takes sequences out of the admission order. -/
theorem releaseEach_order (sequences : List SequenceId) :
    ∀ {cache : KVCacheManager}, PoolInvariant total blockSize policy cache →
      (releaseEach sequences cache).admissionOrder.Sublist cache.admissionOrder := by
  induction sequences with
  | nil => exact fun _ => List.Sublist.refl _
  | cons sequence rest ih =>
    intro cache h
    refine (ih (release_eq h sequence).2).trans ?_
    rcases call_cases h (.release sequence) with hm | ⟨_,_,he,_⟩
    · obtain ⟨reply,left,hx,hf,_⟩ := hm.returns
      have ha : after (.release sequence) cache=left := by rw [after,hx]
      rw [ha]
      cases hf with
      | releasedNothing _ => exact List.Sublist.refl _
      | released _ => exact List.filter_sublist
    · exact absurd he (by simp only [reduceCtorEq,not_false_eq_true])

/-- Giving rows back aligns what is left, if the others were aligned. -/
theorem aligned_departed (hk : CacheOk u) (hissued : ∀ sequence∈ids u.running, sequence<u.nextId)
    (hrows : (ids u.running).Pairwise (·<·))
    (horder : ∀ cache, u.cache=some cache → cache.admissionOrder.Pairwise (·<·))
    (env : Env) (kind : Settlement) (count : ContinuousStats → ContinuousStats)
    (leaves : SequenceState → Bool)
    (hknown : ∀ cache, u.cache=some cache → ∀ sequence∈cache.tables, sequence<u.nextId ∧
      (sequence∉ids (u.running.filter (fun row => leaves row.2)) →
        (0<cache.tokensHeld sequence ↔ sequence∈ids u.running))) :
    Aligned (departed env kind count leaves u) := by
  have hsub := departed_sublist env kind count leaves u
  refine ⟨fun sequence hm => hissued sequence (hsub.subset hm),hrows.sublist hsub,?_,?_⟩
  · intro cache hc
    obtain ⟨old,ho,rfl⟩ := Option.map_eq_some_iff.mp hc
    obtain ⟨total,blockSize,policy,hi⟩ := hk old ho
    exact (horder old ho).sublist (releaseEach_order _ hi)
  · intro cache hc sequence hm
    obtain ⟨old,ho,rfl⟩ := Option.map_eq_some_iff.mp hc
    obtain ⟨total,blockSize,policy,hi⟩ := hk old ho
    obtain ⟨hkn,htk⟩ := releaseEach_booked (ids (u.running.filter (fun row => leaves row.2))) hi
    obtain ⟨hgone,hold⟩ := (hkn sequence).mp hm
    obtain ⟨hlt,hiff⟩ := hknown old ho sequence hold
    refine ⟨hlt,?_⟩
    rw [htk sequence hgone,hiff hgone]
    refine ⟨?_,fun hm => hsub.subset hm⟩
    intro hr
    obtain ⟨row,hrow,rfl⟩ := List.mem_map.mp hr
    refine List.mem_map.mpr ⟨row,List.mem_filter.mpr ⟨hrow,?_⟩,rfl⟩
    rw [Bool.not_eq_true']
    by_contra hl
    rw [Bool.not_eq_false] at hl
    exact hgone (List.mem_map.mpr ⟨row,List.mem_filter.mpr ⟨hrow,hl⟩,rfl⟩)

/-- So do rows handed back from an aligned batcher. -/
theorem Aligned.departed (h : Aligned s) (hk : CacheOk s) (env : Env) (kind : Settlement)
    (count : ContinuousStats → ContinuousStats) (leaves : SequenceState → Bool) :
    Aligned (departed env kind count leaves s) := by
  refine aligned_departed hk h.issued h.rows h.order env kind count leaves ?_
  intro cache hc sequence hm
  obtain ⟨hlt,hiff⟩ := h.known cache hc sequence hm
  exact ⟨hlt,fun _ => hiff⟩

/-- And rows dropped for their evictions, where the evicted ran. -/
theorem aligned_evicted {victims : List SequenceId} (hk : CacheOk u)
    (hissued : ∀ sequence∈ids u.running, sequence<u.nextId)
    (hrows : (ids u.running).Pairwise (·<·))
    (horder : ∀ cache, u.cache=some cache → cache.admissionOrder.Pairwise (·<·)) (env : Env)
    (hvictims : ∀ victim∈victims, victim∈ids u.running)
    (hknown : ∀ cache, u.cache=some cache → ∀ sequence∈cache.tables, sequence<u.nextId ∧
      (sequence∉victims → (0<cache.tokensHeld sequence ↔ sequence∈ids u.running))) :
    Aligned (evicted env victims u) := by
  refine aligned_departed hk hissued hrows horder env _ _ _ ?_
  intro cache hc sequence hm
  obtain ⟨hlt,hiff⟩ := hknown cache hc sequence hm
  refine ⟨hlt,fun hgone => hiff (fun hv => hgone ?_)⟩
  obtain ⟨row,hrow,rfl⟩ := List.mem_map.mp (hvictims sequence hv)
  exact List.mem_map.mpr ⟨row,List.mem_filter.mpr ⟨hrow,decide_eq_true hv⟩,rfl⟩

/-- What an admission of a new sequence does to the books: nobody holding
tokens is touched but those it lists, and the newcomer comes last. -/
structure Admitted (cache : KVCacheManager) (sequence : SequenceId) (left : KVCacheManager)
    (victims : List SequenceId) (granted : Bool) : Prop where
  order : left.admissionOrder=cache.admissionOrder ∨
    left.admissionOrder=cache.admissionOrder++[sequence]
  known : ∀ other∈left.tables, other=sequence ∨ other∈cache.tables
  others : ∀ other, other≠sequence → other∉victims →
    left.tokensHeld other=cache.tokensHeld other
  victims_held : ∀ victim∈victims, victim≠sequence ∧ 0<cache.tokensHeld victim
  own : granted=true → sequence∈left.tables → 0<left.tokensHeld sequence
  refused : granted=false → victims=[] ∧ left.tokensHeld sequence=0

/-- Every admission of a new sequence does so. -/
theorem admit_cases (h : PoolInvariant total blockSize policy cache) (hn : sequence∉cache.tables) :
    ∃ outcome, KVCacheManager.admitSequence sequence tokens cache=
        .ok outcome (after (.admitSequence sequence tokens) cache) ∧
      evictedBy (.admitSequence sequence tokens) cache=outcome.preempted ∧
      Admitted cache sequence (after (.admitSequence sequence tokens) cache) outcome.preempted
        outcome.ok := by
  obtain ⟨outcome,hx,hv,_⟩ := admitSequence_meets h sequence tokens
  refine ⟨outcome,hx,hv,?_⟩
  rcases call_cases h (.admitSequence sequence tokens) with hm | ⟨_,_,he,_⟩
  · obtain ⟨reply,left,hr,hf,_⟩ := hm.returns
    have ha : after (.admitSequence sequence tokens) cache=left := by rw [after,hr]
    have hreply : reply=.outcome outcome := by
      rw [CacheCall.run,ExceptionState.bind_ok hx] at hr
      exact (EStateM.Result.ok.inj hr).1.symm
    rw [ha]
    have hz : cache.tokensHeld sequence=0 := by
      rw [KVCacheManager.tokensHeld,AList.lookup_eq_none.mpr hn]
    cases hf with
    | admittedNothing =>
      obtain rfl := CacheReply.outcome.inj hreply
      exact ⟨.inl rfl,fun other hm => .inr hm,fun _ _ _ => rfl,
        fun _ hm => absurd hm List.not_mem_nil,fun _ hm => absurd hm hn,
        fun hg => Bool.noConfusion hg⟩
    | @admitted _ _ outcome' _ ht hres =>
      obtain rfl := CacheReply.outcome.inj hreply
      obtain ⟨hrk,hrt⟩ := register_booked hn
      have hi := register_invariant h sequence
      have hb := reserves_booked hres
      have horder : (cache.register sequence).admissionOrder=cache.admissionOrder++[sequence] := by
        rw [KVCacheManager.register,if_neg hn]
      refine ⟨.inr ((reserves_order hres).trans horder),
        fun other hm => (hrk other).mp ((hb.known other).mp hm),?_,?_,?_,?_⟩
      · exact fun other hne hnv => (hb.others other hne hnv).trans (hrt other)
      · intro victim hv
        have hp := (victims_held hi hres hv).2
        rw [hrt] at hp
        exact ⟨fun he => absurd (he ▸ hp) (by rw [hz]; exact Nat.lt_irrefl 0),hp⟩
      · intro hok _
        rw [hb.own hok]
        exact Nat.lt_of_lt_of_le ht (Nat.le_add_left _ _)
      · intro hno
        obtain ⟨hp,hl⟩ := hb.refused hno
        exact ⟨hp,by rw [hl,hrt,hz]⟩
  · exact absurd he (by simp only [reduceCtorEq,not_false_eq_true])

/-- What asking the cache for a request does. -/
theorem asked_admitted (h : Aligned s) (hk : CacheOk s) (config : BatcherConfig)
    (request : Request) {left : KVCacheManager}
    (hc : (asked config request s).cache=some left) :
    ∃ old, s.cache=some old ∧ Admitted old s.nextId left (offerVictims config s request)
      (offerGranted config s request) := by
  obtain ⟨old,ho,rfl⟩ := Option.map_eq_some_iff.mp hc
  obtain ⟨total,blockSize,policy,hi⟩ := hk old ho
  have hnew : s.nextId∉old.tables := fun hm => Nat.lt_irrefl _ (h.known old ho _ hm).1
  obtain ⟨outcome,hx,hv,ha⟩ :=
    @admit_cases _ _ (config.estimateTokens request.prompt) _ _ _ hi hnew
  have hvictims : offerVictims config s request=outcome.preempted := by
    rw [offerVictims,ho]
    exact hv
  have hgranted : offerGranted config s request=outcome.ok := by
    simp only [offerGranted,ho,hx]
  rw [hvictims,hgranted]
  exact ⟨old,ho,ha⟩

/-- Whoever is evicted for a request ran. -/
theorem offerVictims_running (h : Aligned s) (hk : CacheOk s) (config : BatcherConfig)
    (request : Request) : ∀ victim∈offerVictims config s request, victim∈ids s.running := by
  intro victim hv
  cases hc : s.cache with
  | none =>
    rw [offerVictims,hc] at hv
    exact absurd hv List.not_mem_nil
  | some cache =>
    have hasked : (asked config request s).cache=some (after (offerCall config s request) cache) :=
      congrArg (Option.map (after (offerCall config s request))) hc
    obtain ⟨old,ho,ha⟩ := asked_admitted h hk config request hasked
    have hp := (ha.victims_held victim hv).2
    exact ((h.known old ho victim (known_of_tokens hp)).2).mp hp

/-- After the cache was asked, admissions still ascend. -/
theorem asked_order (h : Aligned s) (hk : CacheOk s) (config : BatcherConfig) (request : Request)
    {left : KVCacheManager} (hc : (asked config request s).cache=some left) :
    left.admissionOrder.Pairwise (·<·) := by
  obtain ⟨old,ho,ha⟩ := asked_admitted h hk config request hc
  obtain ⟨total,blockSize,policy,hi⟩ := hk old ho
  rcases ha.order with he | he
  · rw [he]
    exact h.order old ho
  · rw [he,List.pairwise_append]
    refine ⟨h.order old ho,List.pairwise_singleton _ _,?_⟩
    intro other hm newest hn
    rw [List.mem_singleton.mp hn]
    exact (h.known old ho other ((hi.mem_order other).mp hm)).1

/-- A refused request leaves the batcher aligned. -/
theorem Aligned.refused (h : Aligned s) (hk : CacheOk s) {request : Request}
    (hg : offerGranted config s request=false) (hr : ids t.running=ids s.running)
    (hn : s.nextId<t.nextId) (hc : t.cache=(asked config request s).cache) : Aligned t := by
  refine ⟨?_,by rw [hr]; exact h.rows,?_,?_⟩
  · rw [hr]
    exact fun sequence hm => (h.issued sequence hm).trans hn
  · rw [hc]
    exact fun left hl => asked_order h hk config request hl
  · rw [hc,hr]
    intro left hl sequence hm
    obtain ⟨old,ho,ha⟩ := asked_admitted h hk config request hl
    obtain ⟨hv,hz⟩ := ha.refused hg
    by_cases he : sequence=s.nextId
    · rw [he,hz]
      exact ⟨hn,iff_of_false (Nat.lt_irrefl 0) (fun hm => Nat.lt_irrefl _ (h.issued _ hm))⟩
    · obtain ⟨hlt,hiff⟩ := h.known old ho sequence ((ha.known sequence hm).resolve_left he)
      rw [ha.others sequence he (by rw [hv]; exact List.not_mem_nil)]
      exact ⟨hlt.trans hn,hiff⟩

/-- A granted request leaves the batcher aligned, its row the last. -/
theorem Aligned.started (h : Aligned s) (hk : CacheOk s) {request : Request}
    (hg : offerGranted config s request=true) :
    Aligned (withRow request (newSequence s request)
      (evicted env (offerVictims config s request) (asked config request s))) := by
  have hnew : s.nextId∉offerVictims config s request := fun hv =>
    Nat.lt_irrefl _ (h.issued _ (offerVictims_running h hk config request _ hv))
  -- as if the row had been added before the victims were dropped
  have hrow : ids ({asked config request s with
      running := s.running++[(request,newSequence s request)]} : Batcher).running=
        ids s.running++[s.nextId] := List.map_append
  have hok : CacheOk ({asked config request s with
      running := s.running++[(request,newSequence s request)]} : Batcher) :=
    asked_cacheOk hk config request
  have haligned : Aligned (evicted env (offerVictims config s request)
      {asked config request s with running := s.running++[(request,newSequence s request)]}) := by
    refine aligned_evicted hok ?_ ?_
      (fun left hl => asked_order h hk config request hl) env ?_ ?_
    · rw [hrow]
      intro sequence hm
      rcases List.mem_append.mp hm with hm | hm
      · exact (h.issued sequence hm).trans (Nat.lt_succ_self _)
      · rw [List.mem_singleton.mp hm]
        exact Nat.lt_succ_self _
    · rw [hrow,List.pairwise_append]
      refine ⟨h.rows,List.pairwise_singleton _ _,?_⟩
      intro sequence hm newest hn
      rw [List.mem_singleton.mp hn]
      exact h.issued sequence hm
    · rw [hrow]
      exact fun victim hv =>
        List.mem_append_left _ (offerVictims_running h hk config request victim hv)
    · rw [hrow]
      intro left hl sequence hm
      obtain ⟨old,ho,ha⟩ := asked_admitted h hk config request hl
      rw [List.mem_append,List.mem_singleton]
      by_cases he : sequence=s.nextId
      · subst he
        exact ⟨Nat.lt_succ_self _,fun _ => iff_of_true (ha.own hg hm) (.inr rfl)⟩
      · obtain ⟨hlt,hiff⟩ := h.known old ho sequence ((ha.known sequence hm).resolve_left he)
        refine ⟨hlt.trans (Nat.lt_succ_self _),fun hv => ?_⟩
        rw [ha.others sequence he hv,hiff]
        exact (or_iff_left he).symm
  have hstay : decide ((newSequence s request).sequenceId∈offerVictims config s request)=false :=
    decide_eq_false hnew
  refine haligned.congr ?_ ?_ rfl
  · simp only [evicted,SchedulerEffects.departed,settledRows,withRow,asked,List.filter_append,
      List.filter_cons,List.filter_nil,hstay,Bool.false_eq_true,if_false,List.append_nil]
  · simp only [evicted,SchedulerEffects.departed,settledRows,withRow,asked,List.filter_append,
      List.filter_cons,List.filter_nil,hstay,Bool.not_false,if_true]

/-- Offering a request keeps the batcher aligned. -/
theorem Aligned.offered (h : Aligned s) (hk : CacheOk s) {request : Request}
    {admitted : List SequenceState} {offer : Bool×List SequenceState}
    (ho : OfferEffect config env request admitted s offer t) : Aligned t := by
  cases ho with
  | started hg => exact h.started hk hg
  | rejected reason _ _ hn hg => exact h.refused hk hg rfl hn rfl
  | deferred _ hg => exact h.refused hk hg rfl (Nat.lt_succ_self _) rfl

/-- Reserving for the running set keeps the batcher aligned. -/
theorem Aligned.reserved (h : Aligned s) (hk : CacheOk s) (hr : ReserveEffect env s t) :
    Aligned t := by
  cases hr with
  | unbounded _ => exact h
  | @paid cache left answers hc hx =>
    obtain ⟨total,blockSize,policy,hi⟩ := hk cache hc
    have hd : (ids s.running).Nodup := h.rows.imp Nat.ne_of_lt
    obtain ⟨hin,hrows⟩ := extendEach_rows (ids s.running) hi (h.inOrder hc) (fun _ hm => hm) hx
    obtain ⟨answers',left',hx',hl,hkn,htk⟩ := extendEach_booked (ids s.running) hi hd
      (extendEach_knows (ids s.running) hi hx)
    obtain ⟨rfl,rfl⟩ := EStateM.Result.ok.inj (hx.symm.trans hx')
    have hok : CacheOk (answered answers left s) := fun other ho =>
      ⟨total,blockSize,policy,Option.some.inj ho ▸ hl⟩
    refine aligned_evicted hok h.issued h.rows
      (fun other ho => Option.some.inj ho ▸ hin.order) env ?_ ?_
    · intro victim hv
      obtain ⟨answer,ha,hv⟩ := List.mem_flatMap.mp hv
      cases hans : answer.2.ok with
      | true =>
        rw [hans,if_pos rfl] at hv
        exact hrows answer ha victim hv
      | false =>
        rw [hans,if_neg Bool.false_ne_true,List.mem_singleton] at hv
        have hm := List.mem_map_of_mem (f := Prod.fst) ha
        rw [extendEach_keys (ids s.running) hi hx] at hm
        exact hv ▸ hm
    · intro other ho sequence hm
      rw [←Option.some.inj ho,hkn] at hm
      obtain ⟨hlt,hiff⟩ := h.known cache hc sequence hm
      refine ⟨hlt,fun hv => ?_⟩
      have hrunning : (answered answers left s).running=s.running := rfl
      rw [←Option.some.inj ho,htk sequence hv,hrunning,Nat.add_pos_iff_pos_or_pos,hiff,
        List.count_pos_iff,or_self]

/-- Every step of a thread that does not crash keeps it aligned. -/
theorem Aligned.step (h : Aligned s) (hk : CacheOk s) (he : StepEffect config env s t)
    (hn : ∀ e, t.phase≠.crashed e) : Aligned t := by
  cases he with
  | full _ _ => exact h.congr rfl rfl rfl
  | emptied _ _ _ _ => exact h.congr rfl rfl rfl
  | sentinel _ _ _ _ => exact h.congr rfl rfl rfl
  | expired _ _ _ hh _ =>
    cases hh with
    | deferred _ => exact h.congr rfl rfl rfl
    | read _ _ _ => exact h.congr rfl rfl rfl
  | @offered admitted request offer u v hp hm hh hx ho =>
    have hu : Aligned u ∧ CacheOk u := by
      cases hh with
      | deferred _ => exact ⟨h.congr rfl rfl rfl,hk⟩
      | read _ _ _ => exact ⟨h.congr rfl rfl rfl,hk⟩
    exact (hu.1.offered hu.2 ho).congr rfl rfl rfl
  | closed _ => exact h.congr rfl rfl rfl
  | prefilledNothing _ => exact h.congr rfl rfl rfl
  | prefilled _ _ => exact h.congr rfl (ids_advanced env _ s.running) rfl
  | returned _ _ _ _ => exact h.congr rfl rfl rfl
  | idled _ _ _ => exact h.congr rfl rfl rfl
  | busy _ _ => exact h.congr rfl rfl rfl
  | crashed _ _ _ => exact absurd rfl (hn _)
  | starved _ hr _ => exact (h.reserved hk hr).congr rfl rfl rfl
  | @decoded u _ hr _ =>
    have hu := h.reserved hk hr
    have hd : Aligned (decodedBy config env u) := hu.congr rfl (ids_advanced env _ u.running) rfl
    have huk : CacheOk (decodedBy config env u) := hr.cacheOk hk
    exact (hd.departed huk env .completed addCompletion SequenceState.finished).congr rfl rfl rfl
  | halted _ => exact h

/-- A crash is final. -/
theorem crashed_stays {e : PythonBuiltins.PyError} (hp : s.phase=.crashed e)
    (he : StepEffect config env s t) : t.phase=.crashed e := by
  cases he with
  | halted _ => exact hp
  | _ => simp_all only [reduceCtorEq]

/-- Between any two steps of a thread that has not crashed. -/
theorem reaches_aligned (h : (schedulerMachine config).Reaches s)
    (hn : ∀ e, s.phase≠.crashed e) : CacheOk s ∧ Aligned s := by
  have hall : CacheOk s ∧ ((∀ e, s.phase≠.crashed e) → Aligned s) := by
    refine h.invariant (P := fun s => CacheOk s ∧ ((∀ e, s.phase≠.crashed e) → Aligned s)) ?_ ?_
    · intro s hs
      refine ⟨fresh_cacheOk hs,fun _ => ?_⟩
      obtain ⟨cache,rfl,hc⟩ := hs
      have hempty : ∀ manager, cache=some manager →
          manager.admissionOrder=[] ∧ ∀ sequence, sequence∉manager.tables := by
        intro manager hm
        obtain ⟨blockCount,blockSize,policy,he⟩ := hc manager hm
        unfold KVCacheManager.create at he
        split at he
        · exact absurd he (by simp only [reduceCtorEq,not_false_eq_true])
        · rw [←Except.ok.inj he]
          exact ⟨rfl,fun sequence => AList.notMem_empty sequence⟩
      refine ⟨nofun,List.Pairwise.nil,?_,?_⟩
      · intro manager hm
        rw [(hempty manager hm).1]
        exact List.Pairwise.nil
      · exact fun manager hm sequence hk => absurd hk ((hempty manager hm).2 sequence)
    · rintro s env _ ⟨hk,ha⟩ rfl
      obtain ⟨he,hk'⟩ := schedulerStep_effect hk config env
      refine ⟨hk',fun hn => ?_⟩
      refine (ha (fun e hp => ?_)).step hk he hn
      exact hn e (crashed_stays hp he)
  exact ⟨hall.1,hall.2 hn⟩

end CudaForge.RunningHolders
