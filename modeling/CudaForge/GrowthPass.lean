import CudaForge.LargestTurns
import CudaForge.RunningHolders

/-!
# Growing every running sequence by one token

Before a decode step each running sequence asks the cache for one more
token, in the order of the running set, and an extension may evict another
running sequence. The pass wastes nothing when only survivors evicted. Before
it starts the free blocks, the blocks of the running sequences, their slack
and their order tell whether it will: under newest-first the free blocks and
those of the last sequences have to cover everyone before them without slack
and one block for each of these last. Under largest-first every eviction of
the pass can be placed by counting blocks.
-/

namespace CudaForge.GrowthPass

open ExceptionState CacheBlocks CacheManager CeilDivision CacheInvariant CacheReservation
open CacheBooks CachePlacement ServingTypes ContinuousScheduler SchedulerEffects SchedulerLedger
open BlockTurns LargestTurns VictimOrder CacheGrowth RunningHolders TransitionRuns

variable {total blockSize : ℕ} {policy : PreemptionPolicy} {cache left : KVCacheManager}
variable {sequence : SequenceId} {config : BatcherConfig} {env : Env} {s t : Batcher}

/-- The cache before the pass can pay for it: every running sequence is
known, and where there are several its stock covers their turns. Under
newest-first this is a comparison of blocks; under largest-first the pairs of
payers and victims can be placed by counting blocks. -/
def Sustains (cache : KVCacheManager) (running : List SequenceId) : Prop :=
  (∀ sequence∈running, sequence∈cache.tables) ∧
    (running.length≤1 ∨
      match cache.policy with
      | .newest => LatestCovers (stockOf cache) running
      | .largest => LargestCovers (stockOf cache) running)

/-- The oldest running sequence, when the policy is newest-first and its own
need fits the pool. -/
def protectedOldest (cache : KVCacheManager) (running : List SequenceId) : Option SequenceId :=
  running.head?.filter (fun oldest => decide (cache.policy=.newest ∧ FitsPool cache oldest))

/-- The casualties of a pass are its victims and those that were refused. -/
theorem mem_casualties {answers : Answers}
    (hg : ∀ answer∈answers, answer.2.preempted≠[] → answer.2.ok=true) :
    sequence∈casualties answers ↔
      Victim answers sequence ∨ ∃ answer∈answers, answer.1=sequence ∧ answer.2.ok=false := by
  simp only [casualties,List.mem_flatMap,Victim,←exists_or,←and_or_left]
  refine exists_congr (fun answer => and_congr_right (fun hm => ?_))
  cases ho : answer.2.ok with
  | true => simp only [if_true,reduceCtorEq,and_false,or_false]
  | false =>
    have hp : answer.2.preempted=[] := by
      by_contra hp
      exact absurd (ho.symm.trans (hg answer hm hp)) Bool.false_ne_true
    simp only [Bool.false_eq_true,if_false,List.mem_singleton,hp,List.not_mem_nil,false_or,and_true]
    exact eq_comm

/-- The ids that take the decode steps among these events. -/
def decodedIn (events : List Event) : List SequenceId :=
  events.flatMap (fun event => match event with
    | .decode passed _ => passed
    | _ => [])

/-- What a step adds to the trace. -/
def newEvents (config : BatcherConfig) (env : Env) (s : Batcher) : List Event :=
  (schedulerStep config env s).trace.drop s.trace.length

/-- Growing the running set wastes nothing: the pass returns, a sequence is
preempted only for one that takes the decode step that follows, somebody
takes it if somebody's own need fits the pool, and under newest-first the
oldest takes it if its own need fits. -/
def WastesNothing (config : BatcherConfig) (env : Env) (s : Batcher) (cache : KVCacheManager) :
    Prop :=
  (∀ e, (schedulerStep config env s).phase≠.crashed e) ∧
  (∀ sequence outcome, .extended sequence outcome∈newEvents config env s →
    outcome.preempted≠[] → sequence∈decodedIn (newEvents config env s)) ∧
  ((∃ sequence∈ids s.running, FitsPool cache sequence) →
    decodedIn (newEvents config env s)≠[]) ∧
  (cache.policy=.newest → ∀ oldest, (ids s.running).head?=some oldest → FitsPool cache oldest →
    oldest∈decodedIn (newEvents config env s))

theorem decodedIn_append (events later : List Event) :
    decodedIn (events++later)=decodedIn events++decodedIn later := List.flatMap_append

theorem decodedIn_extendEvents (answers : Answers) : decodedIn (extendEvents answers)=[] := by
  induction answers with
  | nil => rfl
  | cons answer rest ih => exact ih

theorem decodedIn_settleEvents (kind : Settlement) (rows : List (Request×SequenceState)) :
    decodedIn (rows.flatMap (settleEvents kind))=[] := by
  induction rows with
  | nil => rfl
  | cons row rest ih =>
    rw [List.flatMap_cons,decodedIn_append,ih]
    rfl

theorem extended_mem_extendEvents {outcome : AdmissionOutcome} {answers : Answers} :
    .extended sequence outcome∈extendEvents answers ↔ (sequence,outcome)∈answers := by
  rw [extendEvents,List.mem_map]
  refine ⟨?_,fun hm => ⟨_,hm,rfl⟩⟩
  rintro ⟨answer,hm,he⟩
  obtain ⟨h1,h2⟩ := Event.extended.inj he
  rwa [←h1,←h2]

theorem extended_not_settleEvents {outcome : AdmissionOutcome} {kind : Settlement}
    {rows : List (Request×SequenceState)} :
    .extended sequence outcome∉rows.flatMap (settleEvents kind) := by
  intro hm
  obtain ⟨row,_,he⟩ := List.mem_flatMap.mp hm
  simp only [settleEvents,List.mem_cons,reduceCtorEq,List.not_mem_nil,or_self] at he

/-- The ids left after a pass are those it did not drop. -/
theorem ids_evicted (env : Env) (victims : List SequenceId) (s : Batcher) :
    ids (evicted env victims s).running=
      (ids s.running).filter (fun sequence => !decide (sequence∈victims)) := by
  rw [ids,ids,List.filter_map]
  rfl

/-- A pass that returns is followed by a decode step of everyone it left. -/
theorem newEvents_paid (h : CacheOk s) (hp : s.phase=.stepping) (hc : s.cache=some cache)
    {answers : Answers} (hx : extendEach (ids s.running) cache=.ok answers left)
    (config : BatcherConfig) (env : Env) :
    (∀ e, (schedulerStep config env s).phase≠.crashed e) ∧
    (∀ sequence outcome, .extended sequence outcome∈newEvents config env s ↔
      (sequence,outcome)∈answers) ∧
    decodedIn (newEvents config env s)=(ids s.running).filter
      (fun sequence => !decide (sequence∈casualties answers)) := by
  have he := (schedulerStep_effect h config env).1.stepping hp
  unfold newEvents
  generalize schedulerStep config env s=t at he
  rcases he with ⟨e,cache',left',_,hc',hx',_⟩ | ⟨u,hr,hu⟩
  · rw [Option.some.inj (hc'.symm.trans hc)] at hx'
    exact absurd (hx'.symm.trans hx) (by simp only [reduceCtorEq,not_false_eq_true])
  have hue : u=evicted env (casualties answers) (answered answers left s) := by
    cases hr with
    | unbounded hn =>
      exact absurd (hc.symm.trans hn) (by simp only [reduceCtorEq,not_false_eq_true])
    | @paid cache' left' answers' hc' hx' =>
      rw [Option.some.inj (hc'.symm.trans hc)] at hx'
      obtain ⟨ha,hl⟩ := EStateM.Result.ok.inj (hx'.symm.trans hx)
      rw [ha,hl]
  have hi : ids u.running=(ids s.running).filter
      (fun sequence => !decide (sequence∈casualties answers)) := by
    rw [hue]
    exact ids_evicted env (casualties answers) (answered answers left s)
  obtain ⟨gone,ht⟩ : ∃ gone : List (Request×SequenceState), u.trace=
      s.trace++(extendEvents answers++gone.flatMap (settleEvents .preempted)) :=
    ⟨_,by rw [hue,←List.append_assoc]; rfl⟩
  rw [←hi]
  rcases hu with ⟨hn,rfl⟩ | ⟨_,rfl⟩
  · have hz : ids u.running=[] := by rw [hn]; rfl
    refine ⟨nofun,?_,?_⟩
    · intro sequence outcome
      simp only [ht,List.drop_left,List.mem_append,extended_mem_extendEvents,
        extended_not_settleEvents,or_false]
    · simp only [ht,List.drop_left,decodedIn_append,decodedIn_extendEvents,decodedIn_settleEvents,
        hz,List.append_nil]
  · obtain ⟨done,htr⟩ : ∃ done : List (Request×SequenceState),
        (retired env (decodedBy config env u)).trace=s.trace++
          (extendEvents answers++gone.flatMap (settleEvents .preempted)++
            [.decode (ids u.running) (ids u.running)]++done.flatMap (settleEvents .completed)) := by
      refine ⟨(decodedBy config env u).running.filter (fun row => row.2.finished),?_⟩
      rw [←List.append_assoc,←List.append_assoc,←ht]
      rfl
    refine ⟨nofun,?_,?_⟩
    · intro sequence outcome
      simp only [htr,List.drop_left,List.mem_append,extended_mem_extendEvents,
        extended_not_settleEvents,or_false,List.mem_singleton,reduceCtorEq]
    · simp only [htr,List.drop_left,decodedIn_append,decodedIn_extendEvents,
        decodedIn_settleEvents,List.nil_append,List.append_nil]
      exact List.flatMap_singleton _ _

/-- A pass that raises ends the thread. -/
theorem crashed_of_error (h : CacheOk s) (hp : s.phase=.stepping) (hc : s.cache=some cache)
    {e : PythonBuiltins.PyError} (hx : extendEach (ids s.running) cache=.error e left)
    (config : BatcherConfig) (env : Env) : ∃ e, (schedulerStep config env s).phase=.crashed e := by
  rcases (schedulerStep_effect h config env).1.stepping hp with
    ⟨e,_,_,_,_,_,ht⟩ | ⟨u,hr,_⟩
  · exact ⟨e,by rw [ht]⟩
  · cases hr with
    | unbounded hn =>
      exact absurd (hc.symm.trans hn) (by simp only [reduceCtorEq,not_false_eq_true])
    | paid hc' hx' =>
      rw [Option.some.inj (hc'.symm.trans hc)] at hx'
      exact absurd (hx'.symm.trans hx) (by simp only [reduceCtorEq,not_false_eq_true])

/-- The survivors of a pass in which nobody both evicts and is evicted: who
evicted is among them, and so is anyone whose need fits and whom nobody
evicted. -/
theorem survives {answers : Answers} {running : List SequenceId}
    (h : PoolInvariant total blockSize policy cache) (hd : running.Nodup)
    (hx : extendEach running cache=.ok answers left) (hm : sequence∈running)
    (hg : Evictor answers sequence ∨ FitsPool cache sequence) :
    sequence∈running.filter (fun sequence => !decide (sequence∈casualties answers)) ↔
      ¬Victim answers sequence := by
  have hkeys := extendEach_keys running h hx
  have hgr := extendEach_granted running h hd hx
  have hnd : (answers.map Prod.fst).Nodup := hkeys ▸ hd
  have hok : ∀ answer∈answers, answer.1=sequence → answer.2.ok=true := by
    intro answer ha he
    rcases hg with ⟨other,ho,heo,hpo⟩ | hf
    · have hs : answer=other := List.inj_on_of_nodup_map hnd ha ho (he.trans heo.symm)
      rw [hs]
      exact hgr other ho (.inl hpo)
    · exact hgr answer ha (.inr (he ▸ hf))
  rw [List.mem_filter,Bool.not_eq_true',decide_eq_false_iff_not,
    mem_casualties (fun answer ha hp => hgr answer ha (.inl hp)),not_or]
  refine ⟨fun hs => hs.2.1,fun hv => ⟨hm,hv,?_⟩⟩
  rintro ⟨answer,ha,he,hn⟩
  exact absurd ((hok answer ha he).symm.trans hn) (by decide)

/-- Two running sequences that hold blocks leave room for the oldest. -/
theorem protectedOldest_eq (h : PoolInvariant total blockSize .newest cache)
    {running : List SequenceId} (hd : running.Nodup)
    (hk : ∀ sequence∈running, sequence∈cache.tables)
    (hp : ∀ sequence∈running, 0<cache.blocksHeld sequence) (hl : 1<running.length) :
    protectedOldest cache running=running.head? := by
  match running,hl with
  | oldest::second::rest,_ =>
    have hne : second≠oldest := fun he =>
      (List.nodup_cons.mp hd).1 (he ▸ List.mem_cons_self)
    have hko := hk oldest List.mem_cons_self
    have hp2 := hp second (List.mem_cons_of_mem _ List.mem_cons_self)
    obtain ⟨table,ht⟩ := exists_lookup hko
    have hfits : FitsPool cache oldest := by
      rw [fitsPool_iff h hko]
      by_contra hn
      have hfull : total≤cache.blocksHeld oldest := by
        have := Bool.toNat_le ((stockOf cache).asks oldest)
        rw [h.totalBlocks_eq] at hn
        omega
      rw [blocksHeld_of_lookup ht] at hfull
      -- a second holder is a victim, but nobody is where the oldest holds all
      have hnone := noVictim_of_full h ht hfull
      obtain ⟨other,ho⟩ := exists_lookup (hk second (List.mem_cons_of_mem _ List.mem_cons_self))
      rw [blocksHeld_of_lookup ho] at hp2
      exact noVictim_nobody h.partitioned hnone second ⟨hne,other,ho,List.length_pos_iff.mp hp2⟩
    rw [protectedOldest,List.head?_cons,Option.filter_some,
      decide_eq_true (And.intro h.policy_eq hfits),if_pos rfl]

/-- A sequence that runs alone has nobody to displace. -/
theorem clean_single {running : List SequenceId} {b : Stock SequenceId}
    {spared : Option SequenceId} (hl : running.length≤1) :
    Clean (nextVictim policy running) spared running b [] [] := by
  rcases Nat.le_one_iff_eq_zero_or_eq_one.mp hl with hz | ho
  · rw [List.length_eq_zero_iff.mp hz]
    trivial
  · obtain ⟨only,rfl⟩ := List.length_eq_one_iff.mp ho
    by_cases hr : b.asks only=false ∨ 0<b.free
    · rw [clean_serve hr]
      trivial
    · rw [not_or,Bool.not_eq_false,Nat.not_lt,Nat.le_zero] at hr
      have hc : nextVictim policy [only] b.held only=none := by
        rw [nextVictim,others,List.filter_cons_of_neg (by simp only [ne_eq,not_true,
          decide_false,Bool.false_eq_true,not_false_eq_true])]
        cases policy <;> rfl
      rw [clean_refuse hr.1 hr.2 hc]
      trivial

/-- The cache can pay for the pass exactly when the turns at its stock are
clean. -/
theorem sustains_iff (h : PoolInvariant total blockSize policy cache) {running : List SequenceId}
    (hk : ∀ sequence∈running, sequence∈cache.tables) (hd : running.Nodup)
    (hp : ∀ sequence∈running, 0<cache.blocksHeld sequence) :
    Sustains cache running ↔ Clean (nextVictim policy running) (protectedOldest cache running)
      running (stockOf cache) [] [] := by
  have hpolicy := h.policy_eq
  rw [Sustains,hpolicy]
  refine (and_iff_right hk).trans ?_
  by_cases hl : running.length≤1
  · exact iff_of_true (.inl hl) (clean_single hl)
  · refine (or_iff_right hl).trans ?_
    have hlt := Nat.lt_of_not_le hl
    cases policy with
    | newest =>
      rw [protectedOldest_eq h hd hk hp hlt]
      exact latestCovers_iff hp hd hlt
    | largest =>
      have hnone : protectedOldest cache running=none := by
        rw [protectedOldest,Option.filter_eq_none_iff]
        intro oldest _
        rw [hpolicy,decide_eq_true_iff]
        exact fun hc => absurd hc.1 (by decide)
      rw [hnone]
      exact largestCovers_iff hp hd hlt

/-- Between any two steps, growing the running set wastes nothing exactly when
the cache before the pass can pay for it. -/
theorem wastesNothing_iff (h : (schedulerMachine config).Reaches s) (hp : s.phase=.stepping)
    (hc : s.cache=some cache) (env : Env) :
    WastesNothing config env s cache ↔ Sustains cache (ids s.running) := by
  obtain ⟨hk,haligned⟩ := reaches_aligned h (fun e he => absurd (hp.symm.trans he) nofun)
  obtain ⟨total,blockSize,policy,hi⟩ := hk cache hc
  have hin := haligned.inOrder hc
  have hd : (ids s.running).Nodup := haligned.rows.imp Nat.ne_of_lt
  cases hx : extendEach (ids s.running) cache with
  | error e left =>
    refine iff_of_false ?_ ?_
    · intro hw
      obtain ⟨e,he⟩ := crashed_of_error hk hp hc hx config env
      exact hw.1 e he
    · intro hs
      obtain ⟨answers,left,ha⟩ := extendEach_known _ hi hs.1
      exact absurd (hx.symm.trans ha) (by simp only [reduceCtorEq,not_false_eq_true])
  | ok answers left =>
    obtain ⟨hph,hev,hde⟩ := newEvents_paid hk hp hc hx config env
    have hkeys := extendEach_keys _ hi hx
    have hknown := extendEach_knows _ hi hx
    have hpos : ∀ sequence∈ids s.running, 0<cache.blocksHeld sequence := fun sequence hm =>
      (blocksHeld_pos hi).mpr ((haligned.known cache hc sequence (hknown sequence hm)).2.mpr hm)
    rw [sustains_iff hi hknown hd hpos,clean_iff _ _ hi hin (fun _ hm => hm) hd hx,WastesNothing,
      hde]
    simp only [hev,List.not_mem_nil,not_false_eq_true,true_and]
    have hrun : ∀ sequence, Evictor answers sequence → sequence∈ids s.running := by
      intro sequence ⟨answer,ha,he,_⟩
      rw [←hkeys,←he]
      exact List.mem_map_of_mem ha
    have holdest : ∀ oldest, protectedOldest cache (ids s.running)=some oldest ↔
        (ids s.running).head?=some oldest ∧ cache.policy=.newest ∧ FitsPool cache oldest := by
      intro oldest
      rw [protectedOldest,Option.filter_eq_some_iff,decide_eq_true_iff]
    refine ⟨?_,?_⟩
    · intro ⟨_,hpaid,_,hold⟩
      refine ⟨?_,?_⟩
      · intro sequence hs
        have hsurvives := survives hi hd hx (hrun sequence hs) (.inl hs)
        obtain ⟨answer,ha,he,hne⟩ := hs
        exact hsurvives.mp (he ▸ hpaid answer.1 answer.2 ha hne)
      · intro victim hv he
        obtain ⟨hh,hn,hf⟩ := (holdest victim).mp he
        exact (survives hi hd hx (List.mem_of_mem_head? hh) (.inr hf)).mp (hold hn victim hh hf) hv
    · intro ⟨hevict,hspare⟩
      have hsurvive : ∀ sequence, Evictor answers sequence → _ := fun sequence hs =>
        (survives hi hd hx (hrun _ hs) (.inl hs)).mpr (hevict sequence hs)
      refine ⟨hph,?_,?_,?_⟩
      · exact fun sequence outcome ha hne => hsurvive sequence ⟨_,ha,rfl,hne⟩
      · intro ⟨sequence,hm,hf⟩
        by_cases hv : Victim answers sequence
        · obtain ⟨answer,ha,hmem⟩ := hv
          exact List.ne_nil_of_mem (hsurvive answer.1 ⟨_,ha,rfl,List.ne_nil_of_mem hmem⟩)
        · exact List.ne_nil_of_mem ((survives hi hd hx hm (.inr hf)).mpr hv)
      · intro hn oldest hh hf
        refine (survives hi hd hx (List.mem_of_mem_head? hh) (.inr hf)).mpr ?_
        exact fun hv => hspare oldest hv ((holdest oldest).mpr ⟨hh,hn,hf⟩)

/-- Two sequences under way and about to grow, the second on the given prompt. -/
def growingRun (second : String) (blocks : ℕ) : Batcher :=
  schedule wordConfig [{read := .request (wordRequest "a")},{read := .request (wordRequest second)},
    {},{},{}] (pooledBatcher blocks)

theorem growingRun_reached (second : String) {blocks : ℕ} (hb : 0<blocks) :
    (schedulerMachine wordConfig).Reaches (growingRun second blocks) :=
  reaches_schedule wordConfig _ (.start (pooledBatcher_fresh hb))

/-- In a pool of three blocks the first evicts the second, whose own extension
then finds a free block: a clean pass. -/
theorem newer_gives_way :
    ∃ cache, (growingRun "b" 3).cache=some cache ∧ cache.freeBlocks=0 ∧
      WastesNothing wordConfig {} (growingRun "b" 3) cache := by
  have hc : (growingRun "b" 3).cache=some ((growingRun "b" 3).cache.get (by decide +kernel)) :=
    (Option.some_get _).symm
  have hpolicy : ((growingRun "b" 3).cache.get (by decide +kernel)).policy=.newest := by
    decide +kernel
  refine ⟨_,hc,by decide +kernel,?_⟩
  refine (wastesNothing_iff (growingRun_reached "b" (by decide)) (by decide +kernel) hc {}).mpr ?_
  rw [Sustains,hpolicy]
  refine ⟨by decide +kernel,.inr (.inl ⟨[1],[2],by decide +kernel,by decide +kernel,?_⟩)⟩
  intro k rest he
  rw [←(List.cons.inj he).2]
  decide +kernel

/-- In a pool of two blocks two sequences of one token evict each other: the
second was already preempted when its own extension evicts the first. -/
theorem mutual_eviction :
    ¬∀ config : BatcherConfig, (∀ prompt, 1≤config.estimateTokens prompt) →
      ∀ s cache, (schedulerMachine config).Reaches s → s.phase=.stepping → s.cache=some cache →
        ∀ env, WastesNothing config env s cache := by
  intro h
  have hc : (growingRun "c" 2).cache=some ((growingRun "c" 2).cache.get (by decide +kernel)) :=
    (Option.some_get _).symm
  have hw := h wordConfig wordConfig_estimates _ _ (growingRun_reached "c" (by decide))
    (by decide +kernel) hc {}
  refine hw.2.2.1 ⟨1,by decide +kernel,by decide +kernel⟩ ?_
  decide +kernel

end CudaForge.GrowthPass
