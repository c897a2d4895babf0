import CudaForge.AliveSequences
import CudaForge.GrowthPass

/-!
# When the cache ends the scheduler thread

An admission of no tokens is granted without making its sequence known. Such
a sequence runs from then on, and its first extension raises in the thread.
In every run whose offers to a cache are estimated at a token or more no call
on the cache raises. An offer estimated at none leaves a running sequence
that the cache never learns of, until the thread extends it and crashes.
-/

namespace CudaForge.EstimatedRequests

open ExceptionState CacheBlocks CacheManager CacheInvariant CacheReservation CachePlacement
open CacheBooks ServingTypes ContinuousScheduler SchedulerEffects SchedulerLedger RunnerProtocol
open AliveSequences TransitionRuns
open GrowthPass (ids_evicted)
open CacheGrowth (extendEach_knows)

variable {config : BatcherConfig} {env : Env} {s t : Batcher} {cache : KVCacheManager}
variable {total blockSize tokens : ℕ} {policy : PreemptionPolicy} {sequence victim : SequenceId}

/-- Some running sequence is unknown to the cache, and the thread has not
returned. -/
def Unbacked (s : Batcher) : Prop :=
  s.phase≠.returned ∧ ∃ cache sequence, s.cache=some cache ∧ sequence∈ids s.running ∧
    sequence∉cache.tables

/-- The thread has crashed, or will when it next extends its sequences. -/
def Doomed (s : Batcher) : Prop := (∃ e, s.phase=.crashed e) ∨ Unbacked s

/-- Whom an admission evicts the cache knows. -/
theorem evictedBy_known (h : PoolInvariant total blockSize policy cache)
    (hv : victim∈evictedBy (.admitSequence sequence tokens) cache) : victim∈cache.tables := by
  rcases call_cases h (.admitSequence sequence tokens) with hm | ⟨_,_,he,_⟩
  · obtain ⟨reply,left,hx,he,_⟩ := hm.returns
    unfold evictedBy at hv
    rw [hx] at hv
    cases he with
    | admittedNothing => exact absurd hv List.not_mem_nil
    | admitted _ hr =>
      cases hr with
      | refused _ _ => exact absurd hv List.not_mem_nil
      | fits _ _ => exact absurd hv List.not_mem_nil
      | displaced _ _ hev _ =>
        obtain ⟨hne,table,hk,_⟩ := hev.effect.victims_held victim hv
        have hm := known_of_lookup hk
        by_cases hs : sequence∈cache.tables
        · rwa [show cache.register sequence=cache from if_pos hs] at hm
        · exact (((register_booked hs).1 victim).mp hm).resolve_left hne
  · exact absurd he (by simp only [reduceCtorEq,not_false_eq_true])

/-- An admission makes nobody else known. -/
theorem admit_knows (h : PoolInvariant total blockSize policy cache)
    (hk : victim∈(after (.admitSequence sequence tokens) cache).tables) :
    victim=sequence ∨ victim∈cache.tables := by
  rcases call_cases h (.admitSequence sequence tokens) with hm | ⟨_,_,he,_⟩
  · obtain ⟨reply,left,hx,he,_⟩ := hm.returns
    have ha : after (.admitSequence sequence tokens) cache=left := by rw [after,hx]
    rw [ha] at hk
    cases he with
    | admittedNothing => exact Or.inr hk
    | admitted _ hr =>
      have hb := ((reserves_booked hr).known victim).mp hk
      by_cases hs : sequence∈cache.tables
      · rw [show cache.register sequence=cache from if_pos hs] at hb
        exact Or.inr hb
      · exact ((register_booked hs).1 victim).mp hb
  · exact absurd he (by simp only [reduceCtorEq,not_false_eq_true])

/-- Dropping known sequences leaves an unknown one running and unknown. -/
theorem dropped_unbacked (h : PoolInvariant total blockSize policy cache)
    (hc : s.cache=some cache) (hr : sequence∈ids s.running) (hn : sequence∉cache.tables)
    {victims : List SequenceId} (hv : sequence∉victims) (env : Env) :
    sequence∈ids (evicted env victims s).running ∧
      ∃ left, (evicted env victims s).cache=some left ∧ sequence∉left.tables := by
  refine ⟨?_,?_⟩
  · rw [ids_evicted,List.mem_filter]
    exact ⟨hr,by rw [decide_eq_false hv]; rfl⟩
  · have hle : (evicted env victims s).cache=s.cache.map (releaseEach
        (ids (s.running.filter (fun row => decide (row.2.sequenceId∈victims))))) := rfl
    rw [hle,hc]
    refine ⟨_,rfl,fun hm => hn ?_⟩
    exact (((releaseEach_booked _ h).1 sequence).mp hm).2

/-- A reservation for an unbacked running set does not return. -/
theorem Unbacked.raises (hu : Unbacked s) (hk : CacheOk s) : ¬ReserveEffect env s t := by
  obtain ⟨_,cache,sequence,hc,hr,hn⟩ := hu
  obtain ⟨total,blockSize,policy,hi⟩ := hk cache hc
  intro he
  cases he with
  | unbounded hnone =>
    exact absurd (hc.symm.trans hnone) (by simp only [reduceCtorEq,not_false_eq_true])
  | paid hc' hx =>
    rw [Option.some.inj (hc'.symm.trans hc)] at hx
    exact hn (extendEach_knows _ hi hx sequence hr)

/-- An unbacked sequence stays unbacked while requests are offered. -/
theorem Unbacked.offered {request : Request} {admitted : List SequenceState}
    {offer : Bool×List SequenceState} (hu : Unbacked s) (hk : CacheOk s) (hrows : RowIds s)
    (ho : OfferEffect config env request admitted s offer t) : Unbacked t := by
  obtain ⟨hnot,cache,sequence,hc,hr,hn⟩ := hu
  obtain ⟨total,blockSize,policy,hi⟩ := hk cache hc
  have hnew : sequence≠s.nextId := Nat.ne_of_lt (hrows.issued sequence hr)
  have hasked : sequence∉(after (offerCall config s request) cache).tables :=
    fun hm => hn ((admit_knows hi hm).resolve_left hnew)
  have hcache : (asked config request s).cache=some (after (offerCall config s request) cache) := by
    rw [asked,hc]
    rfl
  cases ho with
  | started _ =>
    refine ⟨hnot,?_⟩
    have hv : sequence∉offerVictims config s request := by
      rw [offerVictims,hc]
      exact fun hm => hn (evictedBy_known hi hm)
    obtain ⟨_,_,_,hia⟩ := asked_cacheOk hk config request _ hcache
    obtain ⟨hin,left,hl,hout⟩ := dropped_unbacked hia hcache hr hasked hv env
    refine ⟨left,sequence,hl,?_,hout⟩
    rw [ids,withRow,List.map_append]
    exact List.mem_append_left _ hin
  | rejected _ hempty _ _ _ =>
    rw [hempty] at hr
    exact absurd hr List.not_mem_nil
  | deferred _ _ => exact ⟨hnot,_,sequence,hcache,hr,hasked⟩

/-- A doomed thread stays doomed. -/
theorem Doomed.step (hd : Doomed s) (hk : CacheOk s) (hrows : RowIds s)
    (he : StepEffect config env s t) : Doomed t := by
  rcases hd with ⟨e,hp⟩ | hu
  · cases he with
    | halted _ => exact Or.inl ⟨e,hp⟩
    | crashed _ _ _ => exact Or.inl ⟨_,rfl⟩
    | full hp' _ => exact absurd (hp.symm.trans hp') nofun
    | emptied hp' _ _ _ => exact absurd (hp.symm.trans hp') nofun
    | sentinel hp' _ _ _ => exact absurd (hp.symm.trans hp') nofun
    | expired hp' _ _ _ _ => exact absurd (hp.symm.trans hp') nofun
    | offered hp' _ _ _ _ => exact absurd (hp.symm.trans hp') nofun
    | closed hp' => exact absurd (hp.symm.trans hp') nofun
    | prefilledNothing hp' => exact absurd (hp.symm.trans hp') nofun
    | prefilled hp' _ => exact absurd (hp.symm.trans hp') nofun
    | returned hp' _ _ _ => exact absurd (hp.symm.trans hp') nofun
    | idled hp' _ _ => exact absurd (hp.symm.trans hp') nofun
    | busy hp' _ => exact absurd (hp.symm.trans hp') nofun
    | starved hp' _ _ => exact absurd (hp.symm.trans hp') nofun
    | decoded hp' _ _ => exact absurd (hp.symm.trans hp') nofun
  · have hsame : ∀ {u : Batcher}, u.phase≠.returned → u.cache=s.cache →
        ids u.running=ids s.running → Doomed u := by
      intro u hp hc hr
      obtain ⟨_,cache,sequence,hcache,hm,hn⟩ := hu
      exact Or.inr ⟨hp,cache,sequence,hc.trans hcache,hr ▸ hm,hn⟩
    have hrun : s.running≠[] := by
      obtain ⟨_,_,_,_,hr,_⟩ := hu
      rintro hnil
      rw [hnil] at hr
      exact absurd hr List.not_mem_nil
    cases he with
    | full _ _ => exact hsame nofun rfl rfl
    | emptied _ _ _ _ => exact hsame nofun rfl rfl
    | sentinel _ _ _ _ => exact hsame nofun rfl rfl
    | expired _ _ _ hh _ => cases hh <;> exact hsame nofun rfl rfl
    | @offered admitted request offer u v hp hm hh hx ho =>
      have hu' : Unbacked u ∧ CacheOk u ∧ RowIds u := by
        cases hh with
        | deferred _ => exact ⟨hu,hk,⟨hrows.distinct,hrows.issued⟩⟩
        | read _ _ _ => exact ⟨hu,hk,⟨hrows.distinct,hrows.issued⟩⟩
      obtain ⟨hu',hku,hru⟩ := hu'
      obtain ⟨_,cache,sequence,hc,hr,hn⟩ := hu'.offered hku hru ho
      refine Or.inr ⟨?_,cache,sequence,hc,hr,hn⟩
      cases offer.1 <;> exact nofun
    | closed _ => exact hsame nofun rfl rfl
    | prefilledNothing _ => exact hsame nofun rfl rfl
    | prefilled _ _ => exact hsame nofun rfl (ids_advanced env _ s.running)
    | returned _ hr _ _ => exact absurd hr hrun
    | idled _ hr _ => exact absurd hr hrun
    | busy _ _ => exact hsame nofun rfl rfl
    | crashed _ _ _ => exact Or.inl ⟨_,rfl⟩
    | starved _ hr _ => exact absurd hr (hu.raises hk)
    | decoded _ hr _ => exact absurd hr (hu.raises hk)
    | halted hp =>
      rcases hp with hp | hp
      · exact absurd hp hu.1
      · exact Or.inl hp

/-- A step that has something to offer offers it. -/
theorem offerOf_effect {admitted : List SequenceState} {request : Request}
    (he : StepEffect config env s t) (ho : offerOf config s env=some (admitted,request)) :
    ∃ u v offer, InHand env s request u ∧ OfferEffect config env request admitted u offer v ∧
      t={v with phase := if offer.1 then .admitting offer.2 else .prefilling offer.2} := by
  have hphase : ∃ admitted, s.phase=.admitting admitted := by
    unfold offerOf at ho
    cases hp : s.phase with
    | admitting admitted => exact ⟨admitted,rfl⟩
    | _ =>
      rw [hp] at ho
      exact absurd ho nofun
  obtain ⟨passed,hp⟩ := hphase
  cases he with
  | @offered _ _ offer u v hp' hm hh hx heffect =>
    rw [offerOf_eq hp' hm hh hx,Option.some.injEq,Prod.mk.injEq] at ho
    obtain ⟨rfl,rfl⟩ := ho
    exact ⟨u,v,offer,hh,heffect,rfl⟩
  | full hp' hm =>
    rw [offerOf,hp'] at ho
    simp only [if_pos hm,reduceCtorEq] at ho
  | emptied hp' hm hd hr =>
    rw [offerOf,hp'] at ho
    simp only [if_neg (Nat.not_le.mpr hm),hd,hr,reduceCtorEq] at ho
  | sentinel hp' hm hd hr =>
    rw [offerOf,hp'] at ho
    simp only [if_neg (Nat.not_le.mpr hm),hd,hr,reduceCtorEq] at ho
  | expired hp' hm hd hh hx =>
    cases hh with
    | deferred hd' => exact absurd (hd.symm.trans hd') nofun
    | read _ hr hs =>
      rw [hs] at hx
      rw [offerOf,hp'] at ho
      simp only [if_neg (Nat.not_le.mpr hm),hd,hr,hx,if_true,reduceCtorEq] at ho
  | closed hp' => exact absurd (hp.symm.trans hp') nofun
  | prefilledNothing hp' => exact absurd (hp.symm.trans hp') nofun
  | prefilled hp' _ => exact absurd (hp.symm.trans hp') nofun
  | returned hp' _ _ _ => exact absurd (hp.symm.trans hp') nofun
  | idled hp' _ _ => exact absurd (hp.symm.trans hp') nofun
  | busy hp' _ => exact absurd (hp.symm.trans hp') nofun
  | crashed hp' _ _ => exact absurd (hp.symm.trans hp') nofun
  | starved hp' _ _ => exact absurd (hp.symm.trans hp') nofun
  | decoded hp' _ _ => exact absurd (hp.symm.trans hp') nofun
  | halted hp' =>
    rcases hp' with hp' | ⟨_,hp'⟩
    · exact absurd (hp.symm.trans hp') nofun
    · exact absurd (hp.symm.trans hp') nofun

/-- An offer of no tokens is granted, and the cache does not learn of it. -/
theorem unestimated_unbacked {stale : List SequenceId} (ha : Alive stale s)
    (hz : ¬Estimates config s env) (he : StepEffect config env s t) : Unbacked t := by
  unfold Estimates at hz
  push Not at hz
  obtain ⟨hsome,⟨admitted,request⟩,ho,hlt⟩ := hz
  have hzero : config.estimateTokens request.prompt=0 := Nat.lt_one_iff.mp hlt
  obtain ⟨u,v,offer,hh,heffect,rfl⟩ := offerOf_effect he ho
  have hu : Alive stale u ∧ u.cache=s.cache := by
    cases hh with
    | deferred _ => exact ⟨ha.congr rfl rfl rfl rfl,rfl⟩
    | read _ _ _ => exact ⟨ha.congr rfl rfl rfl rfl,rfl⟩
  obtain ⟨hu,hcache⟩ := hu
  obtain ⟨cache,hc⟩ := Option.isSome_iff_exists.mp (hcache ▸ hsome)
  have hn : u.nextId∉cache.tables := by
    rw [hu.known cache hc]
    rintro (hm | hm)
    · exact Nat.lt_irrefl _ (hu.rows.issued _ hm)
    · exact Nat.lt_irrefl _ (hu.issued _ hm).1
  have hgranted : offerGranted config u request=true := by
    rw [offerGranted,hc,hzero]
    rfl
  have hcall : offerCall config u request=.admitSequence u.nextId 0 := by rw [offerCall,hzero]
  have hvictims : offerVictims config u request=[] := by
    rw [offerVictims,hc,hcall]
    rfl
  cases heffect with
  | started _ =>
    rw [hvictims,evicted_nil]
    refine ⟨(by intro hs; cases hs),cache,u.nextId,?_,?_,hn⟩
    · change u.cache.map (after (offerCall config u request))=some cache
      rw [hc,hcall]
      rfl
    · change u.nextId∈ids (u.running++[(request,newSequence u request)])
      rw [ids,List.map_append]
      exact List.mem_append_right _ (List.mem_singleton_self _)
  | rejected _ _ _ _ hg => exact absurd (hgranted.symm.trans hg) (by decide)
  | deferred _ hg => exact absurd (hgranted.symm.trans hg) (by decide)

/-- A doomed thread that is about to extend its sequences crashes. -/
theorem Doomed.crashes (hd : Doomed s) (hk : CacheOk s) (hp : s.phase=.stepping)
    (config : BatcherConfig) (env : Env) : ∃ e, (schedulerStep config env s).phase=.crashed e := by
  rcases hd with ⟨e,hc⟩ | hu
  · exact absurd (hp.symm.trans hc) nofun
  · rcases (schedulerStep_effect hk config env).1.stepping hp with
      ⟨e,_,_,_,_,_,ht⟩ | ⟨u,hr,_⟩
    · exact ⟨e,by rw [ht]⟩
    · exact absurd hr (hu.raises hk)

/-- Whatever comes, a doomed thread stays doomed. -/
theorem Doomed.schedule (envs : List Env) : ∀ {s : Batcher}, Doomed s → CacheOk s → RowIds s →
    Doomed (schedule config envs s) := by
  induction envs with
  | nil => exact fun hd _ _ => hd
  | cons env rest ih =>
    intro s hd hk hrows
    obtain ⟨he,hkt⟩ := schedulerStep_effect hk config env
    exact ih (hd.step hk hrows he) hkt (hrows.step he)

/-- In every run whose offers to a cache are estimated at a token or more, no
call on the cache raises in the thread. The first offer estimated at none
dooms it: it never returns again, and it crashes when it next extends the
running sequences. -/
theorem estimated_uncrashed (config : BatcherConfig) (s : Batcher)
    (h : ((schedulerMachine config).guarded (Estimates config)).Reaches s) :
    (∀ e, s.phase≠.crashed e) ∧
      ∀ env, ¬Estimates config s env → ∀ envs,
        Doomed (schedule config envs (schedulerStep config env s)) ∧
          ((schedule config envs (schedulerStep config env s)).phase=.stepping → ∀ last, ∃ e,
            (schedulerStep config last
              (schedule config envs (schedulerStep config env s))).phase=.crashed e) := by
  obtain ⟨⟨hk,stale,ha⟩,hc⟩ := estimated_alive h
  refine ⟨hc,fun env hz envs => ?_⟩
  have hr : (schedulerMachine config).Reaches (schedulerStep config env s) :=
    .step h.of_guarded rfl
  obtain ⟨he,hkt⟩ := schedulerStep_effect hk config env
  have hd : Doomed (schedule config envs (schedulerStep config env s)) :=
    Doomed.schedule envs (Or.inr (unestimated_unbacked ha hz he)) hkt (reaches_rowIds hr)
  obtain ⟨hkl,_⟩ := reaches_of_effect (P := fun _ => True) (reaches_schedule config envs hr)
    (fun _ _ => trivial) (fun _ _ _ _ _ => trivial)
  exact ⟨hd,fun hp last => hd.crashes hkl hp config last⟩

/-- A request estimated at a token is served. -/
def estimatedSteps : List Env :=
  [{read := .request (wordRequest "a")},{},{},{},{advance := fun _ => ⟨["x"],true,1⟩},{}]

/-- The request is completed, and no call on the cache has raised. -/
theorem estimated_served :
    ∃ s, ((schedulerMachine wordConfig).guarded (Estimates wordConfig)).Reaches s ∧
      s.stats.completions=1 ∧ ∀ e, s.phase≠.crashed e := by
  obtain ⟨s,hr,hc⟩ := Machine.Reaches.replayed (m := schedulerMachine wordConfig)
    (P := fun s => s.stats.completions=1) (fun s env => decide (Estimates wordConfig s env))
    (fun _ _ _ ht => (Option.some.inj ht).symm) estimatedSteps
    (.start (pooledBatcher_fresh Nat.zero_lt_two)) (by decide +kernel)
  rw [Machine.guarded_decide] at hr
  exact ⟨s,hr,hc,(estimated_uncrashed wordConfig _ hr).1⟩

/-- Every prompt is estimated at no token. -/
def emptyConfig : BatcherConfig := {wordConfig with estimateTokens := fun _ => 0}

/-- One request comes, is prefilled and is to be decoded. -/
def unestimatedRun : Batcher :=
  schedule emptyConfig [{read := .request (wordRequest "a")},{},{},{},{}] (pooledBatcher 2)

/-- The cache does not know the running request, and extending it ends the
thread. -/
theorem unestimated_crashes :
    ¬∀ (config : BatcherConfig) (s : Batcher), (schedulerMachine config).Reaches s →
      ∀ e, s.phase≠.crashed e := by
  intro h
  have hr : (schedulerMachine emptyConfig).Reaches unestimatedRun :=
    reaches_schedule emptyConfig _ (.start (pooledBatcher_fresh (by decide)))
  have hp : unestimatedRun.phase=.crashed (.keyError "sequence 1 is not admitted") := by
    decide +kernel
  exact h emptyConfig _ hr _ hp

end CudaForge.EstimatedRequests
