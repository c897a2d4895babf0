import CudaForge.CacheBooks
import CudaForge.RunnerProtocol

/-!
# Scheduler and cache agree on who is alive

The cache knows the running sequences and, besides, every sequence it has
refused: an id enters the cache before the admission is granted or refused,
and nothing forgets a refused one. Without a refusal the two agree between
any two steps, and the drain leaves an empty cache.
-/

namespace CudaForge.AliveSequences

open CacheBlocks CacheManager CacheInvariant CacheBooks CachePlacement CeilDivision ServingTypes
open ContinuousScheduler SchedulerEffects SchedulerLedger RunnerProtocol TransitionRuns

variable {config : BatcherConfig} {env : Env} {s t : Batcher} {stale : List SequenceId}

/-- The cache knows exactly the running sequences. -/
def Agree (s : Batcher) : Prop :=
  ∀ cache, s.cache=some cache →
    (∀ sequence, cache.isAdmitted sequence=true ↔ sequence∈ids s.running) ∧
      cache.activeSequences=s.running.length

/-- Once the thread has returned, nothing is left in the cache. -/
def Drained (s : Batcher) : Prop :=
  ∀ cache, s.cache=some cache → s.phase=.returned →
    cache.activeSequences=0 ∧ cache.admissionOrder=[] ∧ cache.freeBlocks=cache.totalBlocks

/-- If the step offers a request, its estimate is within what the whole pool
holds. -/
def fits (config : BatcherConfig) (s : Batcher) (env : Env) : Bool :=
  match offerOf config s env,s.cache with
  | some offer,some cache =>
    decide (config.estimateTokens offer.2.prompt ≤ cache.totalBlocks*cache.blockSize)
  | _,_ => true

/-- What the step offers to a cache, if anything, is estimated at a token or
more. -/
def Estimates (config : BatcherConfig) (s : Batcher) (env : Env) : Prop :=
  s.cache.isSome=true → ∀ offer∈offerOf config s env, 1≤config.estimateTokens offer.2.prompt

instance (s : Batcher) : Decidable (Estimates config s env) :=
  inferInstanceAs (Decidable (_ → _))

/-- The cache knows the running sequences and the refused ones. -/
structure Alive (stale : List SequenceId) (s : Batcher) : Prop where
  rows : RowIds s
  known : ∀ cache, s.cache=some cache →
    ∀ sequence, sequence∈cache.tables ↔ sequence∈ids s.running ∨ sequence∈stale
  /-- Refused ids are never used again. -/
  issued : ∀ sequence∈stale, sequence<s.nextId ∧ sequence∉ids s.running
  refusals : stale.length=s.stats.cacheRefusals

/-- What a counter reads is kept by any number of settlements that keep it. -/
theorem iterate_keeps {β : Type} (count : ContinuousStats → ContinuousStats)
    {read : ContinuousStats → β} (h : ∀ stats, read (count stats)=read stats) (n : ℕ)
    (stats : ContinuousStats) : read (count^[n] stats)=read stats := by
  induction n generalizing stats with
  | zero => rfl
  | succ n ih => rw [Function.iterate_succ_apply,ih,h]

/-- Giving rows back forgets exactly their sequences. -/
theorem Alive.departed (h : Alive stale s) (hk : CacheOk s) (env : Env) (kind : Settlement)
    (count : ContinuousStats → ContinuousStats)
    (hcount : ∀ stats, (count stats).cacheRefusals=stats.cacheRefusals)
    (leaves : SequenceState → Bool) : Alive stale (departed env kind count leaves s) := by
  have hsub := departed_sublist env kind count leaves s
  refine ⟨h.rows.sublist hsub (Nat.le_refl _),?_,?_,?_⟩
  · intro cache hc sequence
    obtain ⟨old,ho,rfl⟩ := Option.map_eq_some_iff.mp hc
    obtain ⟨total,blockSize,policy,hi⟩ := hk old ho
    rw [(releaseEach_booked _ hi).1 sequence,h.known old ho sequence]
    -- a running sequence is given back or stays, a refused one does not run
    have hsplit : sequence∈ids s.running ↔
        sequence∈ids (s.running.filter (fun row => leaves row.2)) ∨
          sequence∈ids (SchedulerEffects.departed env kind count leaves s).running := by
      simp only [ids,SchedulerEffects.departed,List.mem_map,List.mem_filter,Bool.not_eq_true']
      constructor
      · rintro ⟨row,hm,rfl⟩
        cases hl : leaves row.2 with
        | true => exact Or.inl ⟨row,⟨hm,hl⟩,rfl⟩
        | false => exact Or.inr ⟨row,⟨hm,hl⟩,rfl⟩
      · rintro (⟨row,⟨hm,_⟩,rfl⟩ | ⟨row,⟨hm,_⟩,rfl⟩) <;> exact ⟨row,hm,rfl⟩
    have hdisjoint : sequence∈ids (s.running.filter (fun row => leaves row.2)) →
        sequence∉ids (SchedulerEffects.departed env kind count leaves s).running := by
      intro hg hst
      have hp : (ids (s.running.filter (fun row => leaves row.2))++
          ids (SchedulerEffects.departed env kind count leaves s).running).Perm
            (ids s.running) := by
        rw [ids,ids,←List.map_append]
        exact (List.filter_append_perm (fun row => leaves row.2) s.running).map _
      exact List.disjoint_of_nodup_append (hp.nodup_iff.mpr h.rows.distinct) hg hst
    have hstale : sequence∈stale →
        sequence∉ids (s.running.filter (fun row => leaves row.2)) := fun hm hg =>
      (h.issued sequence hm).2 (hsplit.mpr (.inl hg))
    constructor
    · rintro ⟨hn,ho⟩
      exact ho.imp (fun hr => (hsplit.mp hr).resolve_left hn) id
    · intro ho
      refine ho.elim (fun hr => ⟨fun hg => hdisjoint hg hr,.inl (hsplit.mpr (.inr hr))⟩) ?_
      exact fun hm => ⟨hstale hm,.inr hm⟩
  · intro sequence hm
    exact ⟨(h.issued sequence hm).1,fun hr => (h.issued sequence hm).2 (hsub.subset hr)⟩
  · exact h.refusals.trans (iterate_keeps count hcount _ _).symm

/-- The books read the rows' ids, the cache, the next id and the refusals. -/
theorem Alive.congr (h : Alive stale s) (hc : t.cache=s.cache) (hr : ids t.running=ids s.running)
    (hn : t.nextId=s.nextId) (hs : t.stats.cacheRefusals=s.stats.cacheRefusals) :
    Alive stale t := by
  refine ⟨h.rows.sublist (hr ▸ List.Sublist.refl _) (Nat.le_of_eq hn.symm),?_,?_,?_⟩
  · rw [hc,hr]
    exact h.known
  · rw [hr,hn]
    exact h.issued
  · rw [hs]
    exact h.refusals

/-- Asking the cache makes the new sequence known, and changes nothing else
about who is. -/
theorem asked_known (h : Alive stale s) (hk : CacheOk s) {request : Request}
    (hest : s.cache.isSome=true → 1≤config.estimateTokens request.prompt)
    {cache : KVCacheManager} (hc : (asked config request s).cache=some cache)
    (sequence : SequenceId) :
    sequence∈cache.tables ↔
      sequence=s.nextId ∨ sequence∈ids s.running ∨ sequence∈stale := by
  obtain ⟨old,ho,rfl⟩ := Option.map_eq_some_iff.mp hc
  obtain ⟨total,blockSize,policy,hi⟩ := hk old ho
  have hnew : s.nextId∉old.tables := by
    rw [h.known old ho]
    rintro (hm | hm)
    · exact Nat.lt_irrefl _ (h.rows.issued _ hm)
    · exact Nat.lt_irrefl _ (h.issued _ hm).1
  obtain ⟨_,_,hb,_⟩ := admit_booked hi hnew (hest (by rw [ho]; rfl))
  rw [offerCall,hb.known,(register_booked hnew).1,h.known old ho]

/-- An offered request either runs from then on or leaves a stale id. -/
theorem Alive.offered {request : Request} {admitted : List SequenceState}
    {offer : Bool×List SequenceState} (h : Alive stale s) (hk : CacheOk s)
    (hest : s.cache.isSome=true → 1≤config.estimateTokens request.prompt)
    (ho : OfferEffect config env request admitted s offer t) :
    Alive (stale++if offerGranted config s request then [] else [s.nextId]) t := by
  have hfresh : s.nextId∉ids s.running := fun hm => Nat.lt_irrefl _ (h.rows.issued _ hm)
  have hnew : ∀ {u : Batcher}, ids u.running=ids s.running → s.nextId<u.nextId →
      u.cache=(asked config request s).cache →
      u.stats.cacheRefusals=s.stats.cacheRefusals+1 → Alive (stale++[s.nextId]) u := by
    intro u hr hn hc hs
    refine ⟨⟨hr ▸ h.rows.distinct,fun id hm => (h.rows.issued id (hr ▸ hm)).trans hn⟩,?_,?_,?_⟩
    · intro cache hcache sequence
      rw [asked_known h hk hest (hc ▸ hcache),hr,List.mem_append,List.mem_singleton]
      exact or_comm.trans or_assoc
    · intro sequence hm
      rw [hr]
      rcases List.mem_append.mp hm with hm | hm
      · exact ⟨(h.issued sequence hm).1.trans hn,(h.issued sequence hm).2⟩
      · rw [List.mem_singleton.mp hm]
        exact ⟨hn,hfresh⟩
    · rw [List.length_append,h.refusals,hs]
      rfl
  cases ho with
  | started hg =>
    rw [if_pos hg,List.append_nil]
    -- the new id is booked first, as if it were stale, then its row is added
    have ha : Alive (stale++[s.nextId])
        {asked config request s with stats := addRefusal s.stats} :=
      hnew rfl (Nat.lt_succ_self _) rfl rfl
    have hd := ha.departed (asked_cacheOk hk config request) env .preempted
      addPreempted (fun _ => rfl)
      (fun state => decide (state.sequenceId∈offerVictims config s request))
    have hrows := h.rows.started config env request (offerVictims config s request)
    have hi : ids (withRow request (newSequence s request)
        (evicted env (offerVictims config s request) (asked config request s))).running=
          ids (evicted env (offerVictims config s request) (asked config request s)).running++
            [s.nextId] := List.map_append
    refine ⟨hrows,?_,?_,?_⟩
    · intro cache hc sequence
      have hkn := hd.known cache hc sequence
      rw [List.mem_append,List.mem_singleton] at hkn
      rw [hi,List.mem_append,List.mem_singleton,or_right_comm,or_assoc]
      exact hkn
    · intro sequence hm
      have hs := hd.issued sequence (List.mem_append_left _ hm)
      refine ⟨hs.1,?_⟩
      rw [hi,List.mem_append,List.mem_singleton]
      exact not_or.mpr ⟨hs.2,Nat.ne_of_lt (h.issued sequence hm).1⟩
    · exact h.refusals.trans (iterate_keeps addPreempted (fun _ => rfl) _ s.stats).symm
  | rejected reason _ _ hn hg =>
    rw [hg,if_neg Bool.false_ne_true]
    exact hnew rfl hn rfl rfl
  | deferred _ hg =>
    rw [hg,if_neg Bool.false_ne_true]
    exact hnew rfl (Nat.lt_succ_self _) rfl rfl

/-- Reserving for the running set does not raise, and drops whom it forgets. -/
theorem Alive.reserved (h : Alive stale s) (hk : CacheOk s) (hr : ReserveEffect env s t) :
    Alive stale t := by
  cases hr with
  | unbounded _ => exact h
  | @paid cache left answers hc hx =>
    obtain ⟨total,blockSize,policy,hi⟩ := hk cache hc
    obtain ⟨answers',left',hx',hl,hkn,_⟩ := extendEach_booked (ids s.running) hi h.rows.distinct
      (fun sequence hm => (h.known cache hc sequence).mpr (.inl hm))
    obtain ⟨rfl,rfl⟩ := EStateM.Result.ok.inj (hx.symm.trans hx')
    have ha : Alive stale (answered answers left s) := by
      refine ⟨h.rows.sublist (List.Sublist.refl _) (Nat.le_refl _),?_,h.issued,h.refusals⟩
      intro other ho sequence
      rw [←Option.some.inj ho,hkn]
      exact h.known cache hc sequence
    have hok : CacheOk (answered answers left s) := fun other ho =>
      ⟨total,blockSize,policy,Option.some.inj ho ▸ hl⟩
    exact ha.departed hok env .preempted addPreempted (fun _ => rfl) _

/-- A reservation for known sequences does not raise. -/
theorem Alive.not_crashed (h : Alive stale s) (hk : CacheOk s) {cache left : KVCacheManager}
    {e : PythonBuiltins.PyError} (hc : s.cache=some cache) :
    extendEach (ids s.running) cache≠.error e left := by
  intro hx
  obtain ⟨total,blockSize,policy,hi⟩ := hk cache hc
  obtain ⟨_,_,hx',_⟩ := extendEach_booked (ids s.running) hi h.rows.distinct
    (fun sequence hm => (h.known cache hc sequence).mpr (.inl hm))
  exact absurd (hx.symm.trans hx') (by simp only [reduceCtorEq,not_false_eq_true])

/-- Every step keeps the books: what it makes stale is the id of a refused
offer, and an offer that fits the pool is not refused. -/
theorem Alive.step (h : Alive stale s) (hk : CacheOk s) (hest : Estimates config s env)
    (he : StepEffect config env s t) :
    ∃ refused, Alive (stale++refused) t ∧ (fits config s env=true → refused=[]) := by
  have hsame : ∀ {u : Batcher}, Alive stale u →
      ∃ refused, Alive (stale++refused) u ∧ (fits config s env=true → refused=[]) :=
    fun hu => ⟨[],(List.append_nil stale).symm ▸ hu,fun _ => rfl⟩
  cases he with
  | full _ _ => exact hsame (h.congr rfl rfl rfl rfl)
  | emptied _ _ _ _ => exact hsame (h.congr rfl rfl rfl rfl)
  | sentinel _ _ _ _ => exact hsame (h.congr rfl rfl rfl rfl)
  | expired _ _ _ hh _ =>
    cases hh with
    | deferred _ => exact hsame (h.congr rfl rfl rfl rfl)
    | read _ _ _ => exact hsame (h.congr rfl rfl rfl rfl)
  | @offered admitted request offer u v hp hm hh hx ho =>
    have hu : Alive stale u ∧ CacheOk u ∧ u.cache=s.cache ∧ u.nextId=s.nextId := by
      cases hh with
      | deferred _ => exact ⟨h.congr rfl rfl rfl rfl,hk,rfl,rfl⟩
      | read _ _ _ => exact ⟨h.congr rfl rfl rfl rfl,hk,rfl,rfl⟩
    obtain ⟨hu,huk,hcache,hnext⟩ := hu
    have hroom : u.cache.isSome=true → 1≤config.estimateTokens request.prompt := by
      rw [hcache]
      exact fun hsome => hest hsome _ (offerOf_eq hp hm hh hx)
    refine ⟨_,(hu.offered huk hroom ho).congr rfl rfl rfl rfl,?_⟩
    intro hf
    rw [fits,offerOf_eq hp hm hh hx,←hcache] at hf
    suffices hg : offerGranted config u request=true by rw [if_pos hg]
    unfold offerGranted
    cases hc : u.cache with
    | none => rfl
    | some cache =>
      obtain ⟨total,blockSize,policy,hi⟩ := huk cache hc
      have hnew : u.nextId∉cache.tables := by
        rw [hu.known cache hc]
        rintro (hm | hm)
        · exact Nat.lt_irrefl _ (hu.rows.issued _ hm)
        · exact Nat.lt_irrefl _ (hu.issued _ hm).1
      obtain ⟨outcome,hr,_,hok,_⟩ := admit_booked hi hnew (hroom (by rw [hc]; rfl))
      rw [hc] at hf
      have hle := of_decide_eq_true hf
      rw [hi.totalBlocks_eq,hi.size_eq,←ceilDiv_le_iff hi.size_pos] at hle
      simp only [hr]
      exact hok.mpr hle
  | closed _ => exact hsame (h.congr rfl rfl rfl rfl)
  | prefilledNothing _ => exact hsame (h.congr rfl rfl rfl rfl)
  | prefilled _ _ => exact hsame (h.congr rfl (ids_advanced env _ s.running) rfl rfl)
  | returned _ _ _ _ => exact hsame (h.congr rfl rfl rfl rfl)
  | idled _ _ _ => exact hsame (h.congr rfl rfl rfl rfl)
  | busy _ _ => exact hsame (h.congr rfl rfl rfl rfl)
  | crashed _ hc hx => exact absurd hx (h.not_crashed hk hc)
  | starved _ hr _ => exact hsame ((h.reserved hk hr).congr rfl rfl rfl rfl)
  | @decoded u _ hr _ =>
    have hd : Alive stale (decodedBy config env u) :=
      (h.reserved hk hr).congr rfl (ids_advanced env _ u.running) rfl rfl
    have huk : CacheOk u := hr.cacheOk hk
    have hdk : CacheOk (decodedBy config env u) := huk
    have ht := hd.departed hdk env .completed addCompletion (fun _ => rfl)
      SequenceState.finished
    exact hsame (ht.congr rfl rfl rfl rfl)
  | halted _ => exact hsame h

theorem fresh_alive (h : Fresh s) : Alive [] s := by
  obtain ⟨cache,rfl,hc⟩ := h
  refine ⟨⟨List.nodup_nil,nofun⟩,?_,nofun,rfl⟩
  intro manager hm sequence
  obtain ⟨blockCount,blockSize,policy,he⟩ := hc manager hm
  have ht : manager.tables=∅ := by
    unfold KVCacheManager.create at he
    cases ha : BlockAllocator.create blockCount blockSize with
    | error e =>
      rw [ha] at he
      exact absurd he (by simp only [reduceCtorEq,not_false_eq_true])
    | ok allocator =>
      rw [ha] at he
      rw [←Except.ok.inj he]
  rw [ht]
  exact iff_of_false (AList.notMem_empty sequence) (not_or.mpr ⟨List.not_mem_nil,List.not_mem_nil⟩)

/-- In a run whose offers are estimated at a token or more the books are kept
and nothing raises. -/
theorem estimated_alive
    (h : ((schedulerMachine config).guarded (Estimates config)).Reaches s) :
    (CacheOk s ∧ ∃ stale, Alive stale s) ∧ ∀ e, s.phase≠.crashed e := by
  refine h.invariant (P := fun s => (CacheOk s ∧ ∃ stale, Alive stale s) ∧
    ∀ e, s.phase≠.crashed e) ?_ ?_
  · intro s hs
    refine ⟨⟨fresh_cacheOk hs,[],fresh_alive hs⟩,?_⟩
    obtain ⟨cache,rfl,_⟩ := hs
    exact fun _ => nofun
  · rintro s env t ⟨⟨hk,stale,ha⟩,hc⟩ ⟨hest,ht⟩
    obtain ⟨he,hkt⟩ := schedulerStep_effect hk config env
    rw [←ht] at he hkt
    obtain ⟨refused,hr,_⟩ := ha.step hk hest he
    refine ⟨⟨hkt,_,hr⟩,fun e => ?_⟩
    cases he with
    | crashed _ hcache hx => exact absurd hx (ha.not_crashed hk hcache)
    | halted _ => exact hc e
    | @offered admitted request offer u v _ _ _ _ _ => cases offer.1 <;> exact nofun
    | _ => exact nofun

/-- Between any two steps the cache knows the running sequences and, for
every refusal so far, one id that never runs again. -/
theorem reaches_alive (hest : ∀ prompt, 1≤config.estimateTokens prompt)
    (h : (schedulerMachine config).Reaches s) : CacheOk s ∧ ∃ stale, Alive stale s :=
  (estimated_alive (h.to_guarded (fun _ _ _ offer _ => hest offer.2.prompt))).1

/-- No exception of the cache ends the thread. -/
theorem reaches_uncrashed (hest : ∀ prompt, 1≤config.estimateTokens prompt)
    (h : (schedulerMachine config).Reaches s) : ∀ e, s.phase≠.crashed e :=
  (estimated_alive (h.to_guarded (fun _ _ _ offer _ => hest offer.2.prompt))).2

/-- Known sequences are counted by the running set and the stale ids. -/
theorem Alive.active (h : Alive stale s) (hd : stale.Nodup) {cache : KVCacheManager}
    (hc : s.cache=some cache) :
    cache.activeSequences=s.running.length+stale.length := by
  have hp : cache.tables.keys.Perm (ids s.running++stale) := by
    refine (List.perm_ext_iff_of_nodup cache.tables.keys_nodup ?_).mpr ?_
    · refine List.nodup_append.mpr ⟨h.rows.distinct,hd,?_⟩
      exact fun sequence hr other hs he => (h.issued other hs).2 (he ▸ hr)
    · intro sequence
      rw [List.mem_append,←h.known cache hc sequence]
      exact AList.mem_keys.symm
  have hl := hp.length_eq
  rw [List.length_append,ids,List.length_map] at hl
  rw [←hl,KVCacheManager.activeSequences,AList.keys,List.keys,List.length_map]

theorem Alive.agree (h : Alive [] s) : Agree s := by
  intro cache hc
  refine ⟨?_,h.active List.nodup_nil hc⟩
  intro sequence
  rw [KVCacheManager.isAdmitted,decide_eq_true_iff,h.known cache hc]
  exact or_iff_left List.not_mem_nil

/-- Between any two steps scheduler and cache agree exactly when nothing was
refused so far. -/
theorem agree_iff (hest : ∀ prompt, 1≤config.estimateTokens prompt)
    (h : (schedulerMachine config).Reaches s) (hc : s.cache.isSome=true) :
    Agree s ↔ s.stats.cacheRefusals=0 := by
  obtain ⟨_,stale,ha⟩ := reaches_alive hest h
  obtain ⟨cache,hc⟩ := Option.isSome_iff_exists.mp hc
  rw [←ha.refusals,List.length_eq_zero_iff]
  refine ⟨?_,fun hs => (hs ▸ ha).agree⟩
  intro hg
  by_contra hn
  obtain ⟨sequence,hm⟩ := List.exists_mem_of_ne_nil stale hn
  have hk := (ha.known cache hc sequence).mpr (.inr hm)
  exact (ha.issued sequence hm).2 (((hg cache hc).1 sequence).mp (decide_eq_true hk))

/-- In every run in which every request offered to the cache is within what
the pool holds, scheduler and cache agree between any two steps, and the
drain leaves the cache empty. -/
theorem fitting_agree (hest : ∀ prompt, 1≤config.estimateTokens prompt)
    (h : ((schedulerMachine config).guarded (fun s env => fits config s env=true)).Reaches s) :
    Agree s ∧ Drained s := by
  have hi : CacheOk s ∧ Alive [] s ∧ (s.phase=.returned → s.running=[]) := by
    refine h.invariant (P := fun s => CacheOk s ∧ Alive [] s ∧
      (s.phase=.returned → s.running=[])) ?_ ?_
    · intro s hs
      refine ⟨fresh_cacheOk hs,fresh_alive hs,?_⟩
      obtain ⟨cache,rfl,_⟩ := hs
      exact nofun
    · intro s env t ⟨hk,ha,hr⟩ ⟨hf,ht⟩
      obtain ⟨he,hkt⟩ := schedulerStep_effect hk config env
      rw [←ht] at he hkt
      obtain ⟨refused,hs,hn⟩ := ha.step hk (fun _ offer _ => hest offer.2.prompt) he
      rw [hn hf] at hs
      exact ⟨hkt,hs,idle_step hr he⟩
  obtain ⟨hk,ha,hr⟩ := hi
  refine ⟨ha.agree,?_⟩
  intro cache hc hp
  obtain ⟨total,blockSize,policy,hi⟩ := hk cache hc
  have hz : cache.activeSequences=0 := by
    rw [(ha.agree cache hc).2,hr hp]
    rfl
  have ht : cache.tables.entries=[] := List.length_eq_zero_iff.mp hz
  have hheld : heldBlocks cache.tables=[] := by
    rw [heldBlocks,KeyedTables.gather,ht]
    rfl
  have hkeys : cache.tables.keys=[] := by
    rw [AList.keys,ht]
    rfl
  have hfree := hi.free_add_held
  rw [hheld,List.length_nil,Nat.add_zero] at hfree
  refine ⟨hz,?_,hfree.trans hi.totalBlocks_eq.symm⟩
  exact List.perm_nil.mp (hkeys ▸ hi.order_exact)

/-- The steps of a run that serves one request and drains. -/
def servedSteps : List Env :=
  [{read := .request (wordRequest "a")},{},{},{},{advance := fun _ => ⟨["x"],true,1⟩},
    {read := .sentinel},{},{},{}]

/-- A run that serves a request, drains and leaves an empty cache. -/
theorem servedSteps_agree :
    ∃ s, ((schedulerMachine wordConfig).guarded
        (fun s env => fits wordConfig s env=true)).Reaches s ∧
      s.phase=.returned ∧ s.stats.completions=1 ∧ Agree s ∧ Drained s := by
  obtain ⟨s,hr,hp,hc⟩ := Machine.Reaches.replayed (m := schedulerMachine wordConfig)
    (P := fun s => s.phase=.returned ∧ s.stats.completions=1) (fits wordConfig)
    (fun _ _ _ ht => (Option.some.inj ht).symm) servedSteps
    (.start (pooledBatcher_fresh Nat.zero_lt_two)) (by decide +kernel)
  exact ⟨s,hr,hp,hc,fitting_agree wordConfig_estimates hr⟩

/-- A request of two tokens and a pool of one, then the shutdown. -/
def oversizedRun : Batcher :=
  schedule wordConfig [{read := .request (wordRequest "b")},{read := .sentinel},{},{},{}]
    (pooledBatcher 1)

/-- The refused request stays known to the cache when the thread has
returned. -/
theorem oversized_stays :
    ¬∀ config : BatcherConfig, (∀ prompt, 1≤config.estimateTokens prompt) →
      ∀ s, (schedulerMachine config).Reaches s → Agree s ∧ Drained s := by
  intro h
  have hr : (schedulerMachine wordConfig).Reaches oversizedRun :=
    reaches_schedule wordConfig _ (.start (pooledBatcher_fresh (by decide)))
  have hc : oversizedRun.cache=some (oversizedRun.cache.get (by decide +kernel)) :=
    (Option.some_get _).symm
  have hd := (h wordConfig wordConfig_estimates _ hr).2 _ hc (by decide +kernel)
  exact absurd hd.1 (by decide +kernel)

end CudaForge.AliveSequences
