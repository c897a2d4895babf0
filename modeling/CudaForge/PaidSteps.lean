import CudaForge.AliveSequences
import CudaForge.GrowthPass

/-!
# No decode step is taken on credit

Whenever the runner is asked for a decode step, every running sequence
already holds the cache for it: its estimate and one token for each decode
step it takes part in, this one included, in blocks of its own.
-/

namespace CudaForge.PaidSteps

open CacheBlocks CacheManager CacheInvariant CacheBooks CachePlacement KeyedTables ServingTypes
open ContinuousScheduler SchedulerEffects SchedulerLedger GrowthPass AliveSequences TransitionRuns

variable {config : BatcherConfig} {env : Env} {s t : Batcher} {stale : List SequenceId}
variable {owed : ℕ}

/-- The physical blocks of a sequence; none when it is unknown. -/
def blocksOf (cache : KVCacheManager) (sequence : SequenceId) : List BlockId :=
  match cache.tables.lookup sequence with
  | none => []
  | some table => table.blocks

/-- The batcher at the moment its step calls `runner.decode_step`, if it
does. -/
def decodeCall (env : Env) (s : Batcher) : Option Batcher :=
  match s.phase with
  | .stepping =>
    match reserveStep env s with
    | .ok _ u => if u.running=[] then none else some u
    | .error _ _ => none
  | _ => none

/-- How many decode steps a sequence has been part of. -/
def decodes (s : Batcher) (sequence : SequenceId) : ℕ := (decodedIn s.trace).count sequence

/-- Every running sequence holds its estimate, a token for each decode step
so far, and what it is owed beyond. -/
structure Paid (config : BatcherConfig) (owed : ℕ) (s : Batcher) : Prop where
  tokens : ∀ cache, s.cache=some cache → ∀ row∈s.running,
    cache.tokensHeld row.2.sequenceId=
      config.estimateTokens row.1.prompt+decodes s row.2.sequenceId+owed
  /-- Only issued ids took decode steps. -/
  past : ∀ sequence∈decodedIn s.trace, sequence<s.nextId

/-- The account reads the cache, the decode steps so far, the next id, and of
the rows their ids and prompts. -/
theorem Paid.congr (h : Paid config owed s) (hc : t.cache=s.cache)
    (hr : ∀ row∈t.running, ∃ old∈s.running,
      row.1.prompt=old.1.prompt ∧ row.2.sequenceId=old.2.sequenceId)
    (hd : decodedIn t.trace=decodedIn s.trace) (hn : s.nextId≤t.nextId) : Paid config owed t := by
  refine ⟨?_,fun sequence hm => (h.past sequence (hd ▸ hm)).trans_le hn⟩
  intro cache hcache row hm
  obtain ⟨old,ho,hp,hi⟩ := hr row hm
  rw [hp,hi,decodes,hd]
  exact h.tokens cache (hc ▸ hcache) old ho

theorem Paid.frame (h : Paid config owed s) (hc : t.cache=s.cache) (hr : t.running=s.running)
    (hd : decodedIn t.trace=decodedIn s.trace) (hn : s.nextId≤t.nextId) : Paid config owed t :=
  h.congr hc (fun row hm => ⟨row,hr ▸ hm,rfl,rfl⟩) hd hn

/-- The rows that stay are not among those given back. -/
theorem departed_apart (hd : (ids s.running).Nodup) (env : Env) (kind : Settlement)
    (count : ContinuousStats → ContinuousStats) (leaves : SequenceState → Bool)
    {row : Request×SequenceState} (hm : row∈(departed env kind count leaves s).running) :
    row∈s.running ∧
      row.2.sequenceId∉ids (s.running.filter (fun row => leaves row.2)) := by
  obtain ⟨hm,hl⟩ := List.mem_filter.mp hm
  refine ⟨hm,?_⟩
  intro hg
  obtain ⟨other,ho,he⟩ := List.mem_map.mp hg
  obtain ⟨ho,hlo⟩ := List.mem_filter.mp ho
  rw [List.inj_on_of_nodup_map hd ho hm he] at hlo
  rw [hlo] at hl
  exact absurd hl Bool.false_ne_true

/-- Giving rows back is no decode step. -/
theorem departed_decodes (env : Env) (kind : Settlement)
    (count : ContinuousStats → ContinuousStats) (leaves : SequenceState → Bool) (s : Batcher) :
    decodedIn (departed env kind count leaves s).trace=decodedIn s.trace := by
  have ht : (departed env kind count leaves s).trace=
      s.trace++(s.running.filter (fun row => leaves row.2)).flatMap (settleEvents kind) := rfl
  rw [ht,decodedIn_append,decodedIn_settleEvents,List.append_nil]

/-- Giving rows back leaves the others paid. -/
theorem Paid.departed (h : Paid config owed s) (hk : CacheOk s) (hd : (ids s.running).Nodup)
    (env : Env) (kind : Settlement) (count : ContinuousStats → ContinuousStats)
    (leaves : SequenceState → Bool) : Paid config owed (departed env kind count leaves s) := by
  have hdec := departed_decodes env kind count leaves s
  refine ⟨?_,fun sequence hm => h.past sequence (hdec ▸ hm)⟩
  intro cache hc row hm
  obtain ⟨old,ho,rfl⟩ := Option.map_eq_some_iff.mp hc
  obtain ⟨total,blockSize,policy,hi⟩ := hk old ho
  obtain ⟨hrow,hapart⟩ := departed_apart hd env kind count leaves hm
  rw [(releaseEach_booked _ hi).2 _ hapart,decodes,hdec]
  exact h.tokens old ho row hrow

/-- What asking the cache for a request does to the tokens: the new sequence
gets its estimate if the offer is granted, and the running ones keep theirs
unless they are evicted for it. -/
theorem asked_tokens (ha : Alive stale s) (hk : CacheOk s)
    (hest : ∀ prompt, 1≤config.estimateTokens prompt) (request : Request)
    {cache : KVCacheManager} (hc : s.cache=some cache) :
    ∃ outcome : AdmissionOutcome,
      (∀ row∈s.running, row.2.sequenceId∉outcome.preempted →
        (after (offerCall config s request) cache).tokensHeld row.2.sequenceId=
          cache.tokensHeld row.2.sequenceId) ∧
      offerGranted config s request=outcome.ok ∧
      offerVictims config s request=outcome.preempted ∧
      (outcome.ok=true → (after (offerCall config s request) cache).tokensHeld s.nextId=
        config.estimateTokens request.prompt) ∧
      (outcome.ok=false → outcome.preempted=[]) := by
  obtain ⟨total,blockSize,policy,hi⟩ := hk cache hc
  have hnew : s.nextId∉cache.tables := by
    rw [ha.known cache hc]
    rintro (hm | hm)
    · exact Nat.lt_irrefl _ (ha.rows.issued _ hm)
    · exact Nat.lt_irrefl _ (ha.issued _ hm).1
  obtain ⟨outcome,hx,hb,_,hz⟩ := admit_booked hi hnew (hest request.prompt)
  obtain ⟨outcome',hx',hv,_⟩ :=
    admitSequence_meets hi s.nextId (config.estimateTokens request.prompt)
  obtain ⟨rfl,_⟩ := EStateM.Result.ok.inj (hx.symm.trans hx')
  obtain ⟨_,hreg⟩ := register_booked hnew
  refine ⟨outcome,?_,?_,?_,?_,fun hf => (hb.refused hf).1⟩
  · intro row hm hp
    have hne : row.2.sequenceId≠s.nextId :=
      Nat.ne_of_lt (ha.rows.issued _ (List.mem_map_of_mem hm))
    rw [offerCall,hb.others _ hne hp,hreg]
  · simp only [offerGranted,hc,hx]
  · simp only [offerVictims,hc]
    exact hv
  · intro hok
    rw [offerCall,hb.own hok,hreg,hz,Nat.zero_add]

/-- Whom an offer does not evict it leaves paid; a granted offer is paid for
by its estimate. -/
theorem Paid.offered {request : Request} {admitted : List SequenceState}
    {offer : Bool×List SequenceState} (h : Paid config 0 s) (ha : Alive stale s) (hk : CacheOk s)
    (hest : ∀ prompt, 1≤config.estimateTokens prompt)
    (ho : OfferEffect config env request admitted s offer t) : Paid config 0 t := by
  have hrefused : offerGranted config s request=false → Paid config 0 (asked config request s) := by
    intro hg
    refine ⟨?_,fun sequence hm => (h.past sequence hm).trans (Nat.lt_succ_self _)⟩
    intro cache hc row hm
    obtain ⟨old,ho,rfl⟩ := Option.map_eq_some_iff.mp hc
    obtain ⟨outcome,hsame,hgo,_,_,hnone⟩ := asked_tokens ha hk hest request ho
    rw [hsame row hm (by rw [hnone (hgo.symm.trans hg)]; exact List.not_mem_nil)]
    exact h.tokens old ho row hm
  cases ho with
  | started hg =>
    have hdist := ha.rows.distinct
    have hdec : decodedIn (withRow request (newSequence s request) (evicted env
        (offerVictims config s request) (asked config request s))).trace=decodedIn s.trace := by
      have hd := departed_decodes env .preempted addPreempted
        (fun state => decide (state.sequenceId∈offerVictims config s request))
        (asked config request s)
      refine (decodedIn_append _ _).trans ?_
      exact (List.append_nil _).trans hd
    refine ⟨?_,fun sequence hm => (h.past sequence (hdec ▸ hm)).trans (Nat.lt_succ_self _)⟩
    intro cache hc row hm
    obtain ⟨mid,hmid,rfl⟩ := Option.map_eq_some_iff.mp hc
    obtain ⟨old,ho,rfl⟩ := Option.map_eq_some_iff.mp hmid
    obtain ⟨outcome,hsame,hgo,hv,hown,_⟩ := asked_tokens ha hk hest request ho
    obtain ⟨total,blockSize,policy,hi⟩ := asked_cacheOk hk config request _ hmid
    rw [decodes,hdec]
    rcases List.mem_append.mp hm with hm | hm
    · obtain ⟨hrow,hapart⟩ := departed_apart (s := asked config request s) hdist env .preempted
        addPreempted (fun state => decide (state.sequenceId∈offerVictims config s request)) hm
      have hnv : row.2.sequenceId∉outcome.preempted := by
        rw [←hv]
        intro hvic
        exact hapart (List.mem_map_of_mem
          (List.mem_filter.mpr ⟨hrow,decide_eq_true hvic⟩))
      rw [(releaseEach_booked _ hi).2 _ hapart,hsame row hrow hnv]
      exact h.tokens old ho row hrow
    · rw [List.mem_singleton.mp hm]
      have hout : s.nextId∉ids ((asked config request s).running.filter
          (fun row => decide (row.2.sequenceId∈offerVictims config s request))) := by
        intro hg
        obtain ⟨other,hm,he⟩ := List.mem_map.mp hg
        have hl := ha.rows.issued _ (List.mem_map_of_mem (List.mem_filter.mp hm).1)
        exact absurd hl (by rw [he]; exact Nat.lt_irrefl _)
      have hzero : (decodedIn s.trace).count s.nextId=0 :=
        List.count_eq_zero_of_not_mem (fun hm => Nat.lt_irrefl _ (h.past _ hm))
      have hnew : (newSequence s request).sequenceId=s.nextId := rfl
      rw [hnew,(releaseEach_booked _ hi).2 _ hout,hown (hgo.symm.trans hg),hzero]
      rfl
  | rejected reason _ _ hn hg =>
    refine (hrefused hg).frame rfl rfl ?_ hn
    exact (decodedIn_append s.trace [.settled (.rejected reason) request none]).trans
      (List.append_nil _)
  | deferred _ hg =>
    refine (hrefused hg).frame rfl rfl ?_ (Nat.le_refl _)
    exact (decodedIn_append s.trace [.deferred request]).trans (List.append_nil _)

/-- After the reservation everybody who still runs is paid one token ahead. -/
theorem Paid.reserved (h : Paid config 0 s) (ha : Alive stale s) (hk : CacheOk s)
    (hr : ReserveEffect env s t) : Paid config 1 t := by
  cases hr with
  | unbounded hc =>
    refine ⟨?_,h.past⟩
    intro cache hs
    exact absurd (hc.symm.trans hs) (by simp only [reduceCtorEq,not_false_eq_true])
  | @paid cache left answers hc hx =>
    obtain ⟨total,blockSize,policy,hi⟩ := hk cache hc
    obtain ⟨answers',left',hx',hl,_,hto⟩ := extendEach_booked (ids s.running) hi ha.rows.distinct
      (fun sequence hm => (ha.known cache hc sequence).mpr (.inl hm))
    obtain ⟨rfl,rfl⟩ := EStateM.Result.ok.inj (hx.symm.trans hx')
    have hdec : decodedIn (evicted env (casualties answers) (answered answers left s)).trace=
        decodedIn s.trace := by
      refine (departed_decodes env .preempted addPreempted _ (answered answers left s)).trans ?_
      refine (decodedIn_append _ _).trans ?_
      rw [decodedIn_extendEvents,List.append_nil]
    refine ⟨?_,fun sequence hm => h.past sequence (hdec ▸ hm)⟩
    intro last hlast row hm
    obtain rfl : releaseEach _ left=last := Option.some.inj hlast
    obtain ⟨hrow,hapart⟩ := departed_apart (s := answered answers left s) ha.rows.distinct env
      .preempted addPreempted (fun state => decide (state.sequenceId∈casualties answers)) hm
    have hnc : row.2.sequenceId∉casualties answers := fun hcas =>
      hapart (List.mem_map_of_mem (List.mem_filter.mpr ⟨hrow,decide_eq_true hcas⟩))
    have hone : (ids s.running).count row.2.sequenceId=1 :=
      List.count_eq_one_of_mem ha.rows.distinct (List.mem_map_of_mem hrow)
    rw [(releaseEach_booked _ hl).2 _ hapart,hto _ hnc,hone,h.tokens cache hc row hrow,decodes,
      decodes,hdec]

/-- The decode step uses up the token that was reserved for it. -/
theorem Paid.decode (h : Paid config 1 s) (hr : RowIds s) (config' : BatcherConfig) (env : Env) :
    Paid config 0 (decodedBy config' env s) := by
  have hdec : decodedIn (decodedBy config' env s).trace=decodedIn s.trace++ids s.running :=
    (decodedIn_append _ _).trans (congrArg _ (List.append_nil _))
  refine ⟨?_,?_⟩
  · intro cache hc row hm
    obtain ⟨old,ho,rfl⟩ := List.mem_map.mp hm
    have hone : (ids s.running).count old.2.sequenceId=1 :=
      List.count_eq_one_of_mem hr.distinct (List.mem_map_of_mem ho)
    have ht := h.tokens cache hc old ho
    rw [advanceRow_id,advanceRow_request,decodes,hdec,List.count_append,hone]
    exact ht
  · intro sequence hm
    rw [hdec] at hm
    exact (List.mem_append.mp hm).elim (h.past sequence) (hr.issued sequence)

/-- Every step keeps the account. -/
theorem Paid.step (h : Paid config 0 s) (ha : Alive stale s) (hk : CacheOk s)
    (hest : ∀ prompt, 1≤config.estimateTokens prompt) (he : StepEffect config env s t) :
    Paid config 0 t := by
  have hlog : ∀ events, decodedIn events=[] →
      decodedIn (s.trace++events)=decodedIn s.trace := by
    intro events hn
    rw [decodedIn_append,hn,List.append_nil]
  cases he with
  | full _ _ => exact h.frame rfl rfl rfl (Nat.le_refl _)
  | emptied _ _ _ _ => exact h.frame rfl rfl rfl (Nat.le_refl _)
  | sentinel _ _ _ _ => exact h.frame rfl rfl rfl (Nat.le_refl _)
  | @expired admitted request u hp hm hd hh _ =>
    cases hh with
    | deferred _ => exact h.frame rfl rfl (hlog [_] rfl) (Nat.le_refl _)
    | read _ _ _ =>
      refine h.frame rfl rfl ?_ (Nat.le_refl _)
      rw [List.append_assoc]
      exact hlog [_,_] rfl
  | @offered admitted request offer u v hp hm hh hx ho =>
    have hu : Paid config 0 u ∧ Alive stale u ∧ CacheOk u := by
      cases hh with
      | deferred _ => exact ⟨h.frame rfl rfl rfl (Nat.le_refl _),ha.congr rfl rfl rfl rfl,hk⟩
      | read _ _ _ =>
        exact ⟨h.frame rfl rfl (hlog [_] rfl) (Nat.le_refl _),ha.congr rfl rfl rfl rfl,hk⟩
    obtain ⟨hu,hua,huk⟩ := hu
    exact (hu.offered hua huk hest ho).frame rfl rfl rfl (Nat.le_refl _)
  | closed _ => exact h.frame rfl rfl rfl (Nat.le_refl _)
  | prefilledNothing _ => exact h.frame rfl rfl rfl (Nat.le_refl _)
  | prefilled _ _ =>
    refine h.congr rfl ?_ (hlog [_] rfl) (Nat.le_refl _)
    intro row hm
    obtain ⟨old,ho,rfl⟩ := List.mem_map.mp hm
    exact ⟨old,ho,by rw [advanceRow_request],advanceRow_id env _ old⟩
  | returned _ _ _ _ => exact h.frame rfl rfl rfl (Nat.le_refl _)
  | idled _ _ _ => exact h.frame rfl rfl rfl (Nat.le_refl _)
  | busy _ _ => exact h.frame rfl rfl rfl (Nat.le_refl _)
  | crashed _ hc hx => exact absurd hx (ha.not_crashed hk hc)
  | @starved u _ hr hu =>
    have hp := h.reserved ha hk hr
    refine ⟨?_,hp.past⟩
    intro cache _ row hm
    have hm' : row∈u.running := hm
    rw [hu] at hm'
    exact absurd hm' List.not_mem_nil
  | @decoded u _ hr _ =>
    have hua := ha.reserved hk hr
    have huk : CacheOk u := hr.cacheOk hk
    have hd := (h.reserved ha hk hr).decode hua.rows config env
    have hi : ids (decodedBy config env u).running=ids u.running := ids_advanced env _ u.running
    have hdk : CacheOk (decodedBy config env u) := huk
    exact (hd.departed hdk (hi ▸ hua.rows.distinct) env .completed addCompletion _).frame
      rfl rfl rfl (Nat.le_refl _)
  | halted _ => exact h

/-- Between any two steps nobody is owed a token and nobody owes one. -/
theorem reaches_paid (hest : ∀ prompt, 1≤config.estimateTokens prompt)
    (h : (schedulerMachine config).Reaches s) :
    CacheOk s ∧ (∃ stale, Alive stale s) ∧ Paid config 0 s := by
  refine h.invariant (P := fun s => CacheOk s ∧ (∃ stale, Alive stale s) ∧ Paid config 0 s) ?_ ?_
  · intro s hs
    refine ⟨fresh_cacheOk hs,⟨[],fresh_alive hs⟩,?_⟩
    obtain ⟨cache,rfl,_⟩ := hs
    exact ⟨fun _ _ _ hm => absurd hm List.not_mem_nil,fun _ hm => absurd hm List.not_mem_nil⟩
  · intro s env t ⟨hk,⟨stale,ha⟩,hp⟩ ht
    obtain ⟨he,hkt⟩ := schedulerStep_effect hk config env
    rw [←ht] at he hkt
    obtain ⟨refused,hr,_⟩ := ha.step hk (fun _ offer _ => hest offer.2.prompt) he
    exact ⟨hkt,⟨_,hr⟩,hp.step ha hk hest he⟩

/-- Two sequences of one cache have no block in common. -/
theorem blocksOf_disjoint {total blockSize : ℕ} {policy : PreemptionPolicy}
    {cache : KVCacheManager} (h : PoolInvariant total blockSize policy cache)
    {sequence other : SequenceId} (hn : sequence≠other) :
    List.Disjoint (blocksOf cache sequence) (blocksOf cache other) := by
  intro block hb hb'
  unfold blocksOf at hb hb'
  cases hk : cache.tables.lookup sequence with
  | none =>
    rw [hk] at hb
    exact absurd hb List.not_mem_nil
  | some table =>
    cases hk' : cache.tables.lookup other with
    | none =>
      rw [hk'] at hb'
      exact absurd hb' List.not_mem_nil
    | some table' =>
      rw [hk] at hb
      rw [hk'] at hb'
      have hd := (h.partition_at hk).nodup_iff.mpr List.nodup_range
      have hheld := List.Nodup.of_append_right hd
      have hm : block∈heldBlocks (cache.tables.erase sequence) := by
        refine mem_gather.mpr ⟨other,table',?_,hb'⟩
        rw [AList.lookup_erase_ne (fun he => hn he.symm),hk']
      exact List.disjoint_of_nodup_append hheld hb hm

/-- The effect of the reservation before a decode call. -/
theorem decodeCall_effect {u : Batcher} (hk : CacheOk s) (hu : decodeCall env s=some u) :
    s.phase=.stepping ∧ ReserveEffect env s u ∧ CacheOk u ∧ u.running≠[] := by
  unfold decodeCall at hu
  cases hp : s.phase with
  | stepping =>
    rw [hp] at hu
    rcases reserveStep_cases hk env with hm | ⟨_,_,_,_,_,_,hx,_⟩
    · obtain ⟨_,v,hx,hr,hkv⟩ := hm.returns
      simp only [hx] at hu
      by_cases hn : v.running=[]
      · rw [if_pos hn] at hu
        exact absurd hu (by simp only [reduceCtorEq,not_false_eq_true])
      · rw [if_neg hn] at hu
        obtain rfl := Option.some.inj hu
        exact ⟨rfl,hr,hkv,hn⟩
    · simp only [hx] at hu
      exact absurd hu (by simp only [reduceCtorEq,not_false_eq_true])
  | _ =>
    rw [hp] at hu
    exact absurd hu (by simp only [reduceCtorEq,not_false_eq_true])

/-- In every run, at the moment of every decode call, every running sequence
holds its estimate and one token for each decode step it has been part of,
this one included, and shares no block with another. -/
theorem reachable_paid (hest : ∀ prompt, 1≤config.estimateTokens prompt)
    (h : (schedulerMachine config).Reaches s) {u : Batcher} (hu : decodeCall env s=some u)
    {cache : KVCacheManager} (hc : u.cache=some cache) :
    (∀ row∈u.running, cache.tokensHeld row.2.sequenceId=
      config.estimateTokens row.1.prompt+(decodes u row.2.sequenceId+1)) ∧
    u.running.Pairwise (fun row other => row.2.sequenceId≠other.2.sequenceId ∧
      List.Disjoint (blocksOf cache row.2.sequenceId) (blocksOf cache other.2.sequenceId)) := by
  obtain ⟨hk,⟨stale,ha⟩,hp⟩ := reaches_paid hest h
  obtain ⟨_,hr,huk,_⟩ := decodeCall_effect hk hu
  obtain ⟨total,blockSize,policy,hi⟩ := huk cache hc
  refine ⟨(hp.reserved ha hk hr).tokens cache hc,?_⟩
  have hd := (ha.reserved hk hr).rows.distinct
  refine (List.pairwise_map.mp hd).imp ?_
  exact fun hn => ⟨hn,blocksOf_disjoint hi hn⟩

/-- In a pool of three blocks the older of two sequences is about to take its
first decode step: it holds its one token and the one of this step, and its
reservation has evicted the newer one. -/
theorem growing_paid :
    ∃ u cache, decodeCall {} (growingRun "b" 3)=some u ∧ u.cache=some cache ∧
      ids u.running=[1] ∧ cache.tokensHeld 1=2 ∧
      ∀ row∈u.running, cache.tokensHeld row.2.sequenceId=
        wordConfig.estimateTokens row.1.prompt+(decodes u row.2.sequenceId+1) := by
  have hu : decodeCall {} (growingRun "b" 3)=
      some ((decodeCall {} (growingRun "b" 3)).get (by decide +kernel)) :=
    (Option.some_get _).symm
  have hc : ((decodeCall {} (growingRun "b" 3)).get (by decide +kernel)).cache=
      some (((decodeCall {} (growingRun "b" 3)).get (by decide +kernel)).cache.get
        (by decide +kernel)) := (Option.some_get _).symm
  have hp := reachable_paid wordConfig_estimates (growingRun_reached "b" (by decide)) hu hc
  exact ⟨_,_,hu,hc,by decide +kernel,by decide +kernel,hp.1⟩

end CudaForge.PaidSteps
