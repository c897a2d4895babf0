import CudaForge.CachePlacement
import CudaForge.ContinuousScheduler

/-!
# What one step of the scheduler can do

`StepEffect` lists every way a step of the thread can go, with the state it
leaves written out. It is proved once from the code; results about whole
runs are read off it by cases.
-/

namespace CudaForge.SchedulerEffects

open ExceptionState PythonBuiltins CacheBlocks CacheManager CacheInvariant CacheReservation
open CachePlacement ServingTypes ContinuousScheduler TransitionRuns

variable {config : BatcherConfig} {env : Env} {s t : Batcher}

/-- A cache in a state that calls leave it in. -/
def CacheOk (s : Batcher) : Prop :=
  ∀ cache, s.cache=some cache → ∃ total blockSize policy, PoolInvariant total blockSize policy cache

/-- A cache after several releases. -/
def releaseEach (sequences : List SequenceId) (cache : KVCacheManager) : KVCacheManager :=
  sequences.foldl (fun left sequence => after (.release sequence) left) cache

/-- The events of one sequence given back. -/
def settleEvents (kind : Settlement) (row : Request×SequenceState) : List Event :=
  [.evict row.2.sequenceId,.settled kind row.1 (some row.2.sequenceId)]

/-- The batcher after some rows were given back. -/
def settledRows (env : Env) (kind : Settlement) (count : ContinuousStats → ContinuousStats)
    (rows : List (Request×SequenceState)) (s : Batcher) : Batcher :=
  {s with
    trace := s.trace++rows.flatMap (settleEvents kind)
    cache := s.cache.map (releaseEach (ids rows))
    stats := count^[rows.length] s.stats
    failed := s.failed+(rows.filter (fun row => env.completeRaises row.2.sequenceId)).length}

/-- Releasing never raises, and leaves what `after` says. -/
theorem release_eq {total blockSize : ℕ} {policy : PreemptionPolicy} {cache : KVCacheManager}
    (h : PoolInvariant total blockSize policy cache) (sequence : SequenceId) :
    KVCacheManager.release sequence cache=.ok () (after (.release sequence) cache) ∧
      PoolInvariant total blockSize policy (after (.release sequence) cache) := by
  have hc := call_cases h (.release sequence)
  rcases hc with hm | ⟨_,_,he,_⟩
  · obtain ⟨reply,left,hr,_,hi⟩ := hm.returns
    have ha : after (.release sequence) cache=left := by rw [after,hr]
    rw [ha]
    refine ⟨?_,hi⟩
    simp only [CacheCall.run,bind,EStateM.bind] at hr
    cases hx : KVCacheManager.release sequence cache with
    | ok u mid =>
      rw [hx] at hr
      have hmid : mid=left := (EStateM.Result.ok.inj hr).2
      rw [hmid]
    | error e mid =>
      rw [hx] at hr
      exact absurd hr (by simp only [reduceCtorEq,not_false_eq_true])
  · exact absurd he (by simp only [reduceCtorEq,not_false_eq_true])

/-- Giving rows back keeps the cache in order. -/
theorem settledRows_cacheOk (h : CacheOk s) (env : Env) (kind : Settlement)
    (count : ContinuousStats → ContinuousStats) (rows : List (Request×SequenceState)) :
    CacheOk (settledRows env kind count rows s) := by
  intro cache hc
  simp only [settledRows] at hc
  obtain ⟨old,ho,rfl⟩ := Option.map_eq_some_iff.mp hc
  obtain ⟨total,blockSize,policy,hi⟩ := h old ho
  refine ⟨total,blockSize,policy,?_⟩
  clear hc ho h
  rw [releaseEach]
  generalize ids rows=sequences
  induction sequences generalizing old with
  | nil => exact hi
  | cons sequence rest ih => exact ih _ (release_eq hi sequence).2

/-- One row given back. -/
theorem settleRow_meets (h : CacheOk s) (env : Env) (kind : Settlement)
    (count : ContinuousStats → ContinuousStats) (request : Request) (state : SequenceState) :
    Meets (settleRow env kind count request state) s
      (fun _ t => t=settledRows env kind count [(request,state)] s) := by
  have hf : (if env.completeRaises state.sequenceId then s.failed+1 else s.failed)=
      s.failed+([(request,state)].filter
        (fun row => env.completeRaises row.2.sequenceId)).length := by
    rw [List.filter_cons]
    cases env.completeRaises state.sequenceId <;> rfl
  cases hc : s.cache with
  | none =>
    simp only [settleRow,log,meets_bind,meets_modify,meets_get,hc]
    simp only [settledRows,settleEvents,hc,Option.map_none,List.flatMap_cons,List.flatMap_nil,
      List.append_nil,List.append_assoc,List.length_singleton,Function.iterate_one]
    rw [←hf]
    rfl
  | some cache =>
    obtain ⟨total,blockSize,policy,hi⟩ := h cache hc
    have hr := (release_eq hi state.sequenceId).1
    simp only [settleRow,log,meets_bind,meets_modify,meets_get,hc,onCache,hr]
    rw [meets_pure]
    simp only [settledRows,settleEvents,hc,Option.map_some,List.flatMap_cons,List.flatMap_nil,
      List.append_nil,List.append_assoc,List.length_singleton,Function.iterate_one]
    rw [←hf]
    rfl

/-- Giving rows back one after another is giving them back together. -/
theorem settledRows_cons (env : Env) (kind : Settlement)
    (count : ContinuousStats → ContinuousStats) (row : Request×SequenceState)
    (rows : List (Request×SequenceState)) (s : Batcher) :
    settledRows env kind count rows (settledRows env kind count [row] s)=
      settledRows env kind count (row::rows) s := by
  have hf : (row::rows).filter (fun row => env.completeRaises row.2.sequenceId)=
      [row].filter (fun row => env.completeRaises row.2.sequenceId)++
        rows.filter (fun row => env.completeRaises row.2.sequenceId) :=
    List.filter_append [row] rows
  simp only [settledRows,hf,List.length_append,List.flatMap_cons,List.flatMap_nil,List.append_nil,
    List.append_assoc,Option.map_map,List.length_cons,List.length_nil,Nat.zero_add,
    Function.iterate_succ_apply,Nat.add_assoc]
  rfl

/-- Giving no rows back changes nothing. -/
theorem settledRows_nil (env : Env) (kind : Settlement)
    (count : ContinuousStats → ContinuousStats) (s : Batcher) :
    settledRows env kind count [] s=s := by
  have hc : s.cache.map (releaseEach [])=s.cache := Option.map_id_fun' ▸ rfl
  simp only [settledRows,ids,List.map_nil,hc,List.flatMap_nil,List.append_nil,List.length_nil,
    Function.iterate_zero_apply,List.filter_nil,Nat.add_zero]

/-- The walk over the running set gives back the rows that leave, in order,
and returns the others. -/
theorem settleRows_meets (env : Env) (kind : Settlement)
    (count : ContinuousStats → ContinuousStats) (leaves : SequenceState → Bool)
    (rows : List (Request×SequenceState)) :
    ∀ {s : Batcher}, CacheOk s → Meets (settleRows env kind count leaves rows) s
      (fun survivors t => survivors=rows.filter (fun row => !leaves row.2) ∧
        t=settledRows env kind count (rows.filter (fun row => leaves row.2)) s) := by
  induction rows with
  | nil =>
    intro s _
    rw [settleRows,meets_pure]
    exact ⟨rfl,(settledRows_nil env kind count s).symm⟩
  | cons row rest ih =>
    intro s h
    obtain ⟨request,state⟩ := row
    rw [settleRows]
    cases hl : leaves state with
    | true =>
      rw [if_pos rfl,meets_bind]
      refine (settleRow_meets h env kind count request state).mono ?_
      rintro _ u rfl
      refine (ih (settledRows_cacheOk h env kind count [(request,state)])).mono ?_
      rintro survivors t ⟨rfl,rfl⟩
      simp only [List.filter_cons,hl,Bool.not_true,Bool.false_eq_true,if_false,if_true,
        settledRows_cons,true_and]
    | false =>
      rw [if_neg Bool.false_ne_true,meets_bind]
      refine (ih h).mono ?_
      rintro survivors t ⟨rfl,rfl⟩
      simp only [meets_pure,List.filter_cons,hl,Bool.not_false,Bool.false_eq_true,if_false,if_true,
        and_self]

/-- The batcher after the rows that leave were given back and removed. -/
def departed (env : Env) (kind : Settlement) (count : ContinuousStats → ContinuousStats)
    (leaves : SequenceState → Bool) (s : Batcher) : Batcher :=
  {settledRows env kind count (s.running.filter (fun row => leaves row.2)) s with
    running := s.running.filter (fun row => !leaves row.2)}

/-- Nobody enters when rows are given back. -/
theorem departed_sublist (env : Env) (kind : Settlement)
    (count : ContinuousStats → ContinuousStats) (leaves : SequenceState → Bool) (s : Batcher) :
    (ids (departed env kind count leaves s).running).Sublist (ids s.running) :=
  List.filter_sublist.map _

/-- Count one preemption. -/
def addPreempted (stats : ContinuousStats) : ContinuousStats :=
  {stats with preempted := stats.preempted+1}

/-- Count one completion. -/
def addCompletion (stats : ContinuousStats) : ContinuousStats :=
  {stats with completions := stats.completions+1}

/-- The batcher after the rows of some victims were dropped. -/
def evicted (env : Env) (victims : List SequenceId) (s : Batcher) : Batcher :=
  departed env .preempted addPreempted (fun state => decide (state.sequenceId∈victims)) s

/-- The batcher after its finished rows were handed back. -/
def retired (env : Env) (s : Batcher) : Batcher :=
  departed env .completed addCompletion SequenceState.finished s

theorem evictPreempted_meets (h : CacheOk s) (env : Env) (victims : List SequenceId) :
    Meets (evictPreempted env victims) s (fun _ t => t=evicted env victims s) := by
  simp only [evictPreempted,meets_bind,meets_get]
  refine (settleRows_meets env _ _ _ s.running h).mono ?_
  rintro survivors t ⟨rfl,rfl⟩
  rfl

theorem retire_meets (h : CacheOk s) (env : Env) :
    Meets (retire env) s (fun _ t => t=retired env s) := by
  simp only [retire,meets_bind,meets_get]
  refine (settleRows_meets env _ _ _ s.running h).mono ?_
  rintro survivors t ⟨rfl,rfl⟩
  rfl

/-- Without victims nothing is dropped. -/
theorem evicted_nil (env : Env) (s : Batcher) : evicted env [] s=s := by
  have hf : s.running.filter (fun row => decide (row.2.sequenceId∈([] : List SequenceId)))=[] := by
    rw [List.filter_eq_nil_iff]
    intro row _
    simp only [List.not_mem_nil,decide_false,Bool.false_eq_true,not_false_eq_true]
  have hn : s.running.filter (fun row => !decide (row.2.sequenceId∈([] : List SequenceId)))=
      s.running := by
    rw [List.filter_eq_self]
    intro row _
    simp only [List.not_mem_nil,decide_false,Bool.not_false]
  rw [evicted,departed,hf,hn,settledRows_nil]

/-- Only membership among the victims matters. -/
theorem evicted_congr (env : Env) {victims victims' : List SequenceId} (s : Batcher)
    (h : ∀ v, v∈victims ↔ v∈victims') : evicted env victims s=evicted env victims' s := by
  have hd : (fun state : SequenceState => decide (state.sequenceId∈victims))=
      fun state => decide (state.sequenceId∈victims') := by
    funext state
    simp only [h]
  rw [evicted,hd,evicted]

/-- A sequence as a request starts it. -/
def newSequence (s : Batcher) (request : Request) : SequenceState :=
  ⟨s.nextId,request.prompt,request.generation,[],false,0⟩

/-- The cache call that offers a request. -/
def offerCall (config : BatcherConfig) (s : Batcher) (request : Request) : CacheCall :=
  .admitSequence s.nextId (config.estimateTokens request.prompt)

/-- Whom offering a request evicts. -/
def offerVictims (config : BatcherConfig) (s : Batcher) (request : Request) : List SequenceId :=
  match s.cache with
  | none => []
  | some cache => evictedBy (offerCall config s request) cache

/-- The cache has room for an offered request, as it has when there is none. -/
def offerGranted (config : BatcherConfig) (s : Batcher) (request : Request) : Bool :=
  match s.cache with
  | none => true
  | some cache =>
    match KVCacheManager.admitSequence s.nextId (config.estimateTokens request.prompt) cache with
    | .ok outcome _ => outcome.ok
    | .error _ _ => false

/-- The batcher once a request has an id and the cache has been asked. -/
def asked (config : BatcherConfig) (request : Request) (s : Batcher) : Batcher :=
  {s with
    nextId := s.nextId+1
    cache := s.cache.map (after (offerCall config s request))}

/-- The batcher with one more row. -/
def withRow (request : Request) (state : SequenceState) (s : Batcher) : Batcher :=
  {s with
    running := s.running++[(request,state)]
    trace := s.trace++[.entered request state.sequenceId]}

/-- Count one refusal by the cache. -/
def addRefusal (stats : ContinuousStats) : ContinuousStats :=
  {stats with cacheRefusals := stats.cacheRefusals+1}

/-- Count one rejected request. -/
def addRejection (stats : ContinuousStats) : ContinuousStats :=
  {stats with rejected := stats.rejected+1}

/-- What offering a request comes to. -/
inductive OfferEffect (config : BatcherConfig) (env : Env) (request : Request)
    (admitted : List SequenceState) (s : Batcher) : Bool×List SequenceState → Batcher → Prop
  | started (hg : offerGranted config s request=true) :
      OfferEffect config env request admitted s (true,admitted++[newSequence s request])
      (withRow request (newSequence s request)
        (evicted env (offerVictims config s request) (asked config request s)))
  | rejected (reason : String) {next : SequenceId} (hr : s.running=[]) (ha : admitted=[])
      (hn : s.nextId<next) (hg : offerGranted config s request=false) :
      OfferEffect config env request admitted s (true,admitted)
        {asked config request s with
          stats := addRejection (addRefusal s.stats)
          trace := s.trace++[.settled (.rejected reason) request none]
          nextId := next}
  | deferred (hr : s.running≠[] ∨ admitted≠[]) (hg : offerGranted config s request=false) :
      OfferEffect config env request admitted s (false,admitted)
        {asked config request s with
          stats := addRefusal s.stats
          deferred := some request
          trace := s.trace++[.deferred request]}

/-- Asking for the first cache of a sequence never raises. -/
theorem admitSequence_meets {total blockSize : ℕ} {policy : PreemptionPolicy}
    {cache : KVCacheManager} (h : PoolInvariant total blockSize policy cache)
    (sequence : SequenceId) (tokens : ℕ) :
    ∃ outcome, KVCacheManager.admitSequence sequence tokens cache=
        .ok outcome (after (.admitSequence sequence tokens) cache) ∧
      evictedBy (.admitSequence sequence tokens) cache=outcome.preempted ∧
      PoolInvariant total blockSize policy (after (.admitSequence sequence tokens) cache) := by
  rcases call_cases h (.admitSequence sequence tokens) with hm | ⟨_,_,he,_⟩
  · obtain ⟨reply,left,hr,_,hi⟩ := hm.returns
    have ha : after (.admitSequence sequence tokens) cache=left := by rw [after,hr]
    simp only [CacheCall.run,bind,EStateM.bind] at hr
    cases hx : KVCacheManager.admitSequence sequence tokens cache with
    | ok outcome mid =>
      rw [hx] at hr
      obtain ⟨ho,hl⟩ := EStateM.Result.ok.inj hr
      refine ⟨outcome,by rw [ha,hl],?_,ha ▸ hi⟩
      simp only [evictedBy,CacheCall.run,bind,EStateM.bind,hx]
      rfl
    | error e mid =>
      rw [hx] at hr
      exact absurd hr (by simp only [reduceCtorEq,not_false_eq_true])
  · exact absurd he (by simp only [reduceCtorEq,not_false_eq_true])

/-- Asking the cache keeps it in order. -/
theorem asked_cacheOk (h : CacheOk s) (config : BatcherConfig) (request : Request) :
    CacheOk (asked config request s) := by
  intro cache hc
  obtain ⟨old,ho,rfl⟩ := Option.map_eq_some_iff.mp hc
  obtain ⟨total,blockSize,policy,hi⟩ := h old ho
  obtain ⟨_,_,_,hl⟩ := admitSequence_meets hi s.nextId (config.estimateTokens request.prompt)
  exact ⟨total,blockSize,policy,hl⟩

theorem evicted_cacheOk (h : CacheOk s) (env : Env) (victims : List SequenceId) :
    CacheOk (evicted env victims s) :=
  settledRows_cacheOk h env .preempted addPreempted _

/-- Offering a request does one of three things. -/
theorem offerToCache_meets (h : CacheOk s) (config : BatcherConfig) (env : Env)
    (request : Request) (admitted : List SequenceState) :
    Meets (offerToCache config env request admitted) s
      (fun offer t => OfferEffect config env request admitted s offer t ∧ CacheOk t) := by
  have hk := asked_cacheOk h config request
  cases hc : s.cache with
  | none =>
    have ha : asked config request s={s with nextId := s.nextId+1, cache := none} := by
      simp only [asked,hc,Option.map_none]
    have hv : offerVictims config s request=[] := by rw [offerVictims,hc]
    have hs : OfferEffect config env request admitted s _ _ := .started (by rw [offerGranted,hc])
    rw [hv,evicted_nil,ha] at hs
    rw [ha] at hk
    simp only [offerToCache,start,log,meets_bind,meets_get,meets_modify,hc,meets_pure]
    exact ⟨hs,hk⟩
  | some cache =>
    obtain ⟨total,blockSize,policy,hi⟩ := h cache hc
    obtain ⟨outcome,hx,hv,_⟩ :=
      admitSequence_meets hi s.nextId (config.estimateTokens request.prompt)
    have ha : asked config request s={s with
        nextId := s.nextId+1
        cache := some (after (offerCall config s request) cache)} := by
      simp only [asked,hc,Option.map_some]
    have hw : offerVictims config s request=outcome.preempted := by
      simp only [offerVictims,hc]
      exact hv
    have hgr : offerGranted config s request=outcome.ok := by simp only [offerGranted,hc,hx]
    rw [ha] at hk
    simp only [offerToCache,meets_bind,meets_get,meets_modify,hc,onCache,hx]
    rw [meets_pure]
    by_cases hok : outcome.ok=true
    · have hs : OfferEffect config env request admitted s _ _ := .started (hgr.trans hok)
      rw [hw,ha] at hs
      rw [if_pos hok]
      by_cases hn : outcome.preempted=[]
      · rw [hn,evicted_nil] at hs
        rw [if_pos hn]
        exact ⟨hs,hk⟩
      · rw [if_neg hn,meets_bind]
        refine (evictPreempted_meets hk env outcome.preempted).mono ?_
        intro _ u hu
        rw [hu]
        exact ⟨hs,evicted_cacheOk hk env outcome.preempted⟩
    · have hno : offerGranted config s request=false := hgr.trans (Bool.eq_false_iff.mpr hok)
      rw [if_neg hok,meets_bind,meets_modify]
      by_cases hr : s.running=[] ∧ admitted=[]
      · rw [if_pos hr]
        have he : ∀ next, s.nextId<next →
            OfferEffect config env request admitted s (true,admitted) _ :=
          fun next hn => .rejected (s!"prompt needs more KV cache than the " ++
            s!"{cache.totalBlocks}-block pool holds") hr.1 hr.2 hn hno
        simp only [ha] at he
        simp only [reject,log,meets_bind,meets_modify,meets_pure]
        cases config.hasOnRejected with
        | true => exact ⟨he (s.nextId+1) (Nat.lt_succ_self _),hk⟩
        | false => exact ⟨he (s.nextId+2) (Nat.lt_add_of_pos_right Nat.two_pos),hk⟩
      · have hd : OfferEffect config env request admitted s _ _ :=
          .deferred (by rw [←not_and_or]; exact hr) hno
        rw [ha] at hd
        rw [if_neg hr]
        exact ⟨hd,hk⟩

/-- What the cache answered, sequence by sequence. -/
abbrev Answers := List (SequenceId×AdmissionOutcome)

/-- The pass over the cache alone: one more token for each sequence in turn. -/
def extendEach : List SequenceId → CacheM Answers
  | [] => pure []
  | sequence::rest => do
    let outcome ← KVCacheManager.extend sequence 1
    let later ← extendEach rest
    pure ((sequence,outcome)::later)

/-- The sequences a pass drops, in the order they were found. -/
def casualties (answers : Answers) : List SequenceId :=
  answers.flatMap (fun answer => if answer.2.ok then answer.2.preempted else [answer.1])

/-- The events of a pass. -/
def extendEvents (answers : Answers) : List Event :=
  answers.map (fun answer => .extended answer.1 answer.2)

/-- The batcher after the answers of a pass, before anyone is dropped. -/
def answered (answers : Answers) (left : KVCacheManager) (s : Batcher) : Batcher :=
  {s with cache := some left, trace := s.trace++extendEvents answers}

/-- One more token for a sequence: granted or refused when it is known, an
exception that changes nothing when it is not. -/
theorem extend_cases {total blockSize : ℕ} {policy : PreemptionPolicy} {cache : KVCacheManager}
    (h : PoolInvariant total blockSize policy cache) (sequence : SequenceId) :
    (∃ outcome left, KVCacheManager.extend sequence 1 cache=.ok outcome left ∧
      Reserves sequence 1 cache outcome left ∧ PoolInvariant total blockSize policy left) ∨
    (sequence∉cache.tables ∧ ∃ e, KVCacheManager.extend sequence 1 cache=.error e cache) := by
  rcases call_cases h (.extend sequence 1) with hm | ⟨other,tokens,he,_,hn,hr⟩
  · simp only [CacheCall.run,meets_bind,meets_pure] at hm
    obtain ⟨outcome,left,hx,hf,hi⟩ := hm.returns
    cases hf with
    | extended _ hres => exact Or.inl ⟨outcome,left,hx,hres,hi⟩
  · obtain ⟨rfl,rfl⟩ := CacheCall.extend.inj he
    refine Or.inr ⟨hn,?_⟩
    simp only [CacheCall.run,bind,EStateM.bind] at hr
    cases hx : KVCacheManager.extend sequence 1 cache with
    | ok outcome left =>
      rw [hx] at hr
      exact absurd hr (by simp only [pure,EStateM.pure,reduceCtorEq,not_false_eq_true])
    | error e left =>
      rw [hx] at hr
      exact ⟨e,by rw [(EStateM.Result.error.inj hr).2]⟩

/-- A pass leaves the cache in order, whether or not it returns. -/
theorem extendEach_leaves {total blockSize : ℕ} {policy : PreemptionPolicy}
    (sequences : List SequenceId) :
    ∀ {cache : KVCacheManager}, PoolInvariant total blockSize policy cache →
      Leaves (extendEach sequences) cache (PoolInvariant total blockSize policy) := by
  induction sequences with
  | nil =>
    intro cache h
    exact h
  | cons sequence rest ih =>
    intro cache h
    unfold Leaves
    rw [extendEach]
    rcases extend_cases h sequence with ⟨outcome,left,hx,_,hi⟩ | ⟨_,e,hx⟩
    · have hl := ih hi
      unfold Leaves at hl
      rw [bind_ok hx]
      cases hy : extendEach rest left with
      | ok later last =>
        rw [hy] at hl
        rw [bind_ok hy]
        exact hl
      | error e last =>
        rw [hy] at hl
        rw [bind_error hy]
        exact hl
    · rw [bind_error hx]
      exact h

theorem ids_cons (row : Request×SequenceState) (rows : List (Request×SequenceState)) :
    ids (row::rows)=row.2.sequenceId::ids rows := rfl

theorem log_eq (event : Event) (s : Batcher) :
    log event s=.ok () {s with trace := s.trace++[event]} := rfl

theorem onCache_ok {α : Type} {cache left : KVCacheManager} {call : CacheM α} {value : α}
    (h : call cache=.ok value left) (s : Batcher) :
    onCache cache call s=.ok value {s with cache := some left} := by
  rw [onCache,h]
  rfl

theorem onCache_error {α : Type} {cache left : KVCacheManager} {call : CacheM α} {e : PyError}
    (h : call cache=.error e left) (s : Batcher) :
    onCache cache call s=.error e {s with cache := some left} := by
  rw [onCache,h]
  rfl

/-- Answers given one after another are answers given together. -/
theorem answered_cons (answer : SequenceId×AdmissionOutcome) (answers : Answers)
    (left last : KVCacheManager) (s : Batcher) :
    answered answers last {s with
      cache := some left, trace := s.trace++[.extended answer.1 answer.2]}=
      answered (answer::answers) last s := by
  simp only [answered,extendEvents,List.map_cons,List.append_assoc,List.singleton_append]

/-- The pass of the scheduler is the pass over its cache. -/
theorem reserveRows_eq (rows : List (Request×SequenceState)) :
    ∀ {s : Batcher} {cache : KVCacheManager}, s.cache=some cache →
      match extendEach (ids rows) cache with
      | .ok answers left => reserveRows rows s=.ok (casualties answers) (answered answers left s)
      | .error e left => ∃ answers, reserveRows rows s=.error e (answered answers left s) := by
  induction rows with
  | nil =>
    intro s cache hc
    simp only [ids,List.map_nil,extendEach,pure,EStateM.pure,reserveRows,casualties,
      List.flatMap_nil,answered,extendEvents,List.append_nil,←hc]
  | cons row rest ih =>
    intro s cache hc
    have hs : reserveRows (row::rest) s=(onCache cache
        (KVCacheManager.extend row.2.sequenceId 1) >>= fun outcome => do
          log (.extended row.2.sequenceId outcome)
          let later ← reserveRows rest
          pure ((if outcome.ok then outcome.preempted else [row.2.sequenceId])++later)) s := by
      rw [reserveRows,bind_get,hc]
    rw [ids_cons,extendEach,hs]
    cases hx : KVCacheManager.extend row.2.sequenceId 1 cache with
    | error e left =>
      rw [bind_error hx,bind_error (onCache_error hx s)]
      exact ⟨[],by simp only [answered,extendEvents,List.map_nil,List.append_nil]⟩
    | ok outcome left =>
      rw [bind_ok hx,bind_ok (onCache_ok hx s),bind_ok (log_eq _ _)]
      have hl := ih (s := {s with
        cache := some left, trace := s.trace++[.extended row.2.sequenceId outcome]}) rfl
      cases hy : extendEach (ids rest) left with
      | ok answers last =>
        rw [hy] at hl
        rw [bind_ok hy,bind_ok hl,answered_cons (row.2.sequenceId,outcome)]
        exact rfl
      | error e last =>
        rw [hy] at hl
        obtain ⟨answers,hl⟩ := hl
        rw [bind_error hy,bind_error hl,answered_cons (row.2.sequenceId,outcome)]
        exact ⟨_,rfl⟩

/-- What a reservation that does not raise leaves. -/
inductive ReserveEffect (env : Env) (s : Batcher) : Batcher → Prop
  | unbounded (hc : s.cache=none) : ReserveEffect env s s
  | paid {cache left : KVCacheManager} {answers : Answers} (hc : s.cache=some cache)
      (hx : extendEach (ids s.running) cache=.ok answers left) :
      ReserveEffect env s (evicted env (casualties answers) (answered answers left s))

/-- A reservation that does not raise keeps the cache in order. -/
theorem ReserveEffect.cacheOk {t : Batcher} (hr : ReserveEffect env s t) (h : CacheOk s) :
    CacheOk t := by
  cases hr with
  | unbounded _ => exact h
  | @paid cache left answers hc hx =>
    obtain ⟨total,blockSize,policy,hi⟩ := h cache hc
    have hl := extendEach_leaves (ids s.running) hi
    unfold Leaves at hl
    rw [hx] at hl
    have hok : CacheOk (answered answers left s) := fun other ho =>
      ⟨total,blockSize,policy,Option.some.inj ho ▸ hl⟩
    exact evicted_cacheOk hok env _

/-- A reservation pays for the running set, or raises having dropped nobody. -/
theorem reserveStep_cases (h : CacheOk s) (env : Env) :
    Meets (reserveStep env) s (fun _ t => ReserveEffect env s t ∧ CacheOk t) ∨
    ∃ e cache left answers, s.cache=some cache ∧
      extendEach (ids s.running) cache=.error e left ∧
      reserveStep env s=.error e (answered answers left s) ∧ CacheOk (answered answers left s) := by
  cases hc : s.cache with
  | none =>
    have hg : reserveStep env s=.ok () s := by
      rw [reserveStep,bind_get,hc]
      rfl
    unfold Meets
    rw [hg]
    exact Or.inl ⟨.unbounded hc,h⟩
  | some cache =>
    have hg : reserveStep env s=(reserveRows s.running >>= fun casualties =>
        if casualties=[] then pure () else evictPreempted env casualties.eraseDups) s := by
      rw [reserveStep,bind_get,hc]
    obtain ⟨total,blockSize,policy,hi⟩ := h cache hc
    have hl := extendEach_leaves (ids s.running) hi
    have hr := reserveRows_eq s.running hc
    unfold Leaves at hl
    cases hx : extendEach (ids s.running) cache with
    | ok answers left =>
      rw [hx] at hr hl
      have hk : CacheOk (answered answers left s) := fun other ho =>
        ⟨total,blockSize,policy,Option.some.inj ho ▸ hl⟩
      have he : ReserveEffect env s _ := .paid hc hx
      refine Or.inl ?_
      unfold Meets
      rw [hg,bind_ok hr]
      by_cases hn : casualties answers=[]
      · rw [hn,evicted_nil] at he
        rw [if_pos hn]
        exact ⟨he,hk⟩
      · rw [if_neg hn]
        rw [←evicted_congr env _ (fun v => List.mem_eraseDups)] at he
        exact (evictPreempted_meets hk env (casualties answers).eraseDups).mono
          (fun _ u hu => by rw [hu]; exact ⟨he,evicted_cacheOk hk env _⟩)
    | error e left =>
      rw [hx] at hr hl
      obtain ⟨answers,hr⟩ := hr
      refine Or.inr ⟨e,cache,left,answers,rfl,hx,?_,?_⟩
      · rw [hg,bind_error hr]
      · exact fun other ho => ⟨total,blockSize,policy,Option.some.inj ho ▸ hl⟩

/-- A row after the runner wrote to the sequences passed to it. -/
def advanceRow (env : Env) (passed : List SequenceId) (row : Request×SequenceState) :
    Request×SequenceState :=
  if row.2.sequenceId∈passed then (row.1,row.2.advanced (env.advance row.2)) else row

/-- The runner leaves requests and ids alone. -/
theorem advanceRow_request (env : Env) (passed : List SequenceId)
    (row : Request×SequenceState) : (advanceRow env passed row).1=row.1 := by
  unfold advanceRow
  split <;> rfl

theorem advanceRow_id (env : Env) (passed : List SequenceId) (row : Request×SequenceState) :
    (advanceRow env passed row).2.sequenceId=row.2.sequenceId := by
  unfold advanceRow
  split <;> rfl

theorem requests_advanced (env : Env) (passed : List SequenceId)
    (rows : List (Request×SequenceState)) :
    (rows.map (advanceRow env passed)).map Prod.fst=rows.map Prod.fst := by
  rw [List.map_map]
  exact List.map_congr_left (fun row _ => advanceRow_request env passed row)

theorem ids_advanced (env : Env) (passed : List SequenceId)
    (rows : List (Request×SequenceState)) : ids (rows.map (advanceRow env passed))=ids rows := by
  rw [ids,List.map_map]
  exact List.map_congr_left (fun row _ => advanceRow_id env passed row)

/-- The batcher after a prefill. -/
def prefilledBy (env : Env) (admitted : List SequenceState) (s : Batcher) : Batcher :=
  {s with
    running := s.running.map (advanceRow env (admitted.map SequenceState.sequenceId))
    stats := {s.stats with admissions := s.stats.admissions+admitted.length}
    trace := s.trace++[.prefill (admitted.map SequenceState.sequenceId) (ids s.running)]}

/-- The batcher after a decode step. -/
def decodedBy (config : BatcherConfig) (env : Env) (s : Batcher) : Batcher :=
  {s with
    running := s.running.map (advanceRow env (ids s.running))
    stats := {s.stats with
      decodeSteps := s.stats.decodeSteps+1
      occupiedRows := s.stats.occupiedRows+s.running.length
      availableRows := s.stats.availableRows+config.maxBatch
      maxObservedBatch := max s.stats.maxObservedBatch s.running.length}
    trace := s.trace++[.decode (ids s.running) (ids s.running)]}

/-- A request in the hands of the admission loop, and the batcher then. -/
inductive InHand (env : Env) (s : Batcher) : Request → Batcher → Prop
  | deferred {request : Request} (hd : s.deferred=some request) :
      InHand env s request {s with deferred := none}
  | read {request read : Request} (hd : s.deferred=none) (hr : env.read=.request read)
      (hs : request={read with dequeuedAt := some env.now}) :
      InHand env s request {s with trace := s.trace++[.dequeued request]}

/-- Everything a step of the thread can do. -/
inductive StepEffect (config : BatcherConfig) (env : Env) (s : Batcher) : Batcher → Prop
  | full {admitted : List SequenceState} (hp : s.phase=.admitting admitted)
      (hm : config.maxBatch ≤ s.running.length+admitted.length) :
      StepEffect config env s {s with phase := .prefilling admitted}
  | emptied {admitted : List SequenceState} (hp : s.phase=.admitting admitted)
      (hm : s.running.length+admitted.length<config.maxBatch)
      (hd : s.deferred=none) (hr : env.read=.empty) :
      StepEffect config env s {s with phase := .prefilling admitted}
  | sentinel {admitted : List SequenceState} (hp : s.phase=.admitting admitted)
      (hm : s.running.length+admitted.length<config.maxBatch)
      (hd : s.deferred=none) (hr : env.read=.sentinel) :
      StepEffect config env s {s with phase := .closing admitted}
  | expired {admitted : List SequenceState} {request : Request} {u : Batcher}
      (hp : s.phase=.admitting admitted)
      (hm : s.running.length+admitted.length<config.maxBatch)
      (hd : s.deferred=none) (hh : InHand env s request u)
      (he : request.expired env.checkedAt=true) :
      StepEffect config env s {u with
        stats := {u.stats with expired := u.stats.expired+1}
        trace := u.trace++[.settled .expired request none]
        phase := .admitting admitted}
  | offered {admitted : List SequenceState} {request : Request} {offer : Bool×List SequenceState}
      {u v : Batcher} (hp : s.phase=.admitting admitted)
      (hm : s.running.length+admitted.length<config.maxBatch) (hh : InHand env s request u)
      (he : s.deferred=none → request.expired env.checkedAt=false)
      (ho : OfferEffect config env request admitted u offer v) :
      StepEffect config env s
        {v with phase := if offer.1 then .admitting offer.2 else .prefilling offer.2}
  | closed {admitted : List SequenceState} (hp : s.phase=.closing admitted) :
      StepEffect config env s {s with
        stopping := true, closed := true, phase := .prefilling admitted}
  | prefilledNothing (hp : s.phase=.prefilling []) :
      StepEffect config env s {s with phase := .testing}
  | prefilled {admitted : List SequenceState} (hp : s.phase=.prefilling admitted)
      (ha : admitted≠[]) :
      StepEffect config env s {prefilledBy env admitted s with phase := .testing}
  | returned (hp : s.phase=.testing) (hr : s.running=[]) (hc : s.closed=true)
      (hq : env.queueEmpty=true) : StepEffect config env s {s with phase := .returned}
  | idled (hp : s.phase=.testing) (hr : s.running=[])
      (hi : (s.closed && env.queueEmpty)=false) :
      StepEffect config env s {s with phase := .admitting []}
  | busy (hp : s.phase=.testing) (hr : s.running≠[]) :
      StepEffect config env s {s with phase := .stepping}
  | crashed {e : PyError} {cache left : KVCacheManager} {answers : Answers}
      (hp : s.phase=.stepping) (hc : s.cache=some cache)
      (hx : extendEach (ids s.running) cache=.error e left) :
      StepEffect config env s {answered answers left s with phase := .crashed e}
  | starved {u : Batcher} (hp : s.phase=.stepping) (hr : ReserveEffect env s u)
      (hu : u.running=[]) : StepEffect config env s {u with phase := .admitting []}
  | decoded {u : Batcher} (hp : s.phase=.stepping) (hr : ReserveEffect env s u)
      (hu : u.running≠[]) :
      StepEffect config env s {retired env (decodedBy config env u) with phase := .admitting []}
  | halted (hp : s.phase=.returned ∨ ∃ e, s.phase=.crashed e) : StepEffect config env s s

/-- What a turn has to show. -/
abbrev TurnMeets (config : BatcherConfig) (env : Env) (s : Batcher) (x : BatcherM Unit) : Prop :=
  Meets x s (fun _ t => StepEffect config env s t ∧ CacheOk t)

theorem admitTurn_meets (h : CacheOk s) {admitted : List SequenceState}
    (hp : s.phase=.admitting admitted) (config : BatcherConfig) (env : Env) :
    TurnMeets config env s (admitTurn config env admitted) := by
  have htake : ∀ {request : Request} {u : Batcher}, CacheOk u → InHand env s request u →
      s.running.length+admitted.length<config.maxBatch →
      (s.deferred=none → request.expired env.checkedAt=false) →
      Meets (takeOffer config env request admitted) u
        (fun _ t => StepEffect config env s t ∧ CacheOk t) := by
    intro request u hu hh hm he
    rw [takeOffer,meets_bind]
    exact (offerToCache_meets hu config env request admitted).mono
      (fun offer v ho => ⟨.offered hp hm hh he ho.1,ho.2⟩)
  rw [TurnMeets,admitTurn,meets_bind,meets_get]
  by_cases hf : config.maxBatch ≤ s.running.length+admitted.length
  · rw [if_pos hf]
    exact ⟨.full hp hf,h⟩
  · have hm := Nat.lt_of_not_le hf
    rw [if_neg hf]
    cases hd : s.deferred with
    | some request =>
      simp only [meets_bind,meets_modify]
      exact htake (u := {s with deferred := none}) h (.deferred hd) hm
        (fun hn => absurd (hd.symm.trans hn) (by simp only [reduceCtorEq,not_false_eq_true]))
    | none =>
      cases hr : env.read with
      | empty => exact ⟨.emptied hp hm hd hr,h⟩
      | sentinel => exact ⟨.sentinel hp hm hd hr,h⟩
      | request read =>
        have hh : InHand env s {read with dequeuedAt := some env.now} _ := .read hd hr rfl
        simp only [log,meets_bind,meets_modify]
        by_cases he : ({read with dequeuedAt := some env.now} : Request).expired env.checkedAt=true
        · rw [if_pos he]
          exact ⟨.expired hp hm hd hh he,h⟩
        · rw [if_neg he]
          exact htake h hh hm (fun _ => Bool.eq_false_iff.mpr he)

theorem prefillTurn_meets (h : CacheOk s) {admitted : List SequenceState}
    (hp : s.phase=.prefilling admitted) (config : BatcherConfig) (env : Env) :
    TurnMeets config env s (prefillTurn env admitted) := by
  unfold prefillTurn
  by_cases ha : admitted=[]
  · subst ha
    rw [if_pos rfl]
    exact ⟨.prefilledNothing hp,h⟩
  · rw [if_neg ha]
    exact ⟨.prefilled hp ha,h⟩

theorem testTurn_meets (h : CacheOk s) (hp : s.phase=.testing) (config : BatcherConfig)
    (env : Env) : TurnMeets config env s (testTurn env) := by
  unfold testTurn
  rw [TurnMeets,meets_bind,meets_get]
  by_cases hr : s.running=[]
  · rw [if_pos hr]
    cases hi : s.closed && env.queueEmpty with
    | false => exact ⟨.idled hp hr hi,h⟩
    | true =>
      obtain ⟨hc,hq⟩ := Bool.and_eq_true_iff.mp hi
      exact ⟨.returned hp hr hc hq,h⟩
  · rw [if_neg hr]
    exact ⟨.busy hp hr,h⟩

/-- The decode step and the retirement after a reservation. -/
theorem decodeAndRetire_meets {u : Batcher} (h : CacheOk u) (hu : u.running≠[])
    (hr : ReserveEffect env s u) (hp : s.phase=.stepping) (config : BatcherConfig) :
    Meets (do
      decodeStep config env (u.running.map Prod.snd)
      retire env
      enter (.admitting [])) u (fun _ t => StepEffect config env s t ∧ CacheOk t) := by
  have hi : (u.running.map Prod.snd).map SequenceState.sequenceId=ids u.running := by
    rw [List.map_map]
    rfl
  have hd : Meets (decodeStep config env (u.running.map Prod.snd)) u
      (fun _ t => t=decodedBy config env u) := by
    rw [decodeStep,hi]
    rfl
  rw [meets_bind]
  refine hd.mono ?_
  intro _ v hv
  have hk : CacheOk v := by
    rw [hv]
    exact h
  rw [meets_bind]
  refine (retire_meets hk env).mono ?_
  intro _ w hw
  rw [hw,hv]
  exact ⟨.decoded hp hr hu,settledRows_cacheOk h env .completed addCompletion _⟩

/-- Every step does one of these things, and keeps the cache in order. -/
theorem schedulerStep_effect (h : CacheOk s) (config : BatcherConfig) (env : Env) :
    StepEffect config env s (schedulerStep config env s) ∧
      CacheOk (schedulerStep config env s) := by
  have hstep : ∀ {x : BatcherM Unit}, turn config env s.phase=x → TurnMeets config env s x →
      StepEffect config env s (schedulerStep config env s) ∧
        CacheOk (schedulerStep config env s) := by
    intro x hx hm
    obtain ⟨_,t,ht,he⟩ := hm.returns
    rw [schedulerStep,hx,ht]
    exact he
  cases hp : s.phase with
  | admitting admitted => exact hstep (by rw [hp]; rfl) (admitTurn_meets h hp config env)
  | closing admitted => exact hstep (x := closeTurn admitted) (by rw [hp]; rfl) ⟨.closed hp,h⟩
  | prefilling admitted => exact hstep (by rw [hp]; rfl) (prefillTurn_meets h hp config env)
  | testing => exact hstep (by rw [hp]; rfl) (testTurn_meets h hp config env)
  | returned => exact hstep (x := pure ()) (by rw [hp]; rfl) ⟨.halted (.inl hp),h⟩
  | crashed e => exact hstep (x := pure ()) (by rw [hp]; rfl) ⟨.halted (.inr ⟨e,hp⟩),h⟩
  | stepping =>
    rcases reserveStep_cases h env with hm | ⟨e,cache,left,answers,hc,hx,hr,hk⟩
    · refine hstep (x := stepTurn config env) (by rw [hp]; rfl) ?_
      rw [stepTurn,TurnMeets,meets_bind]
      refine hm.mono ?_
      intro _ u hu
      rw [meets_bind,meets_get]
      by_cases hn : u.running=[]
      · rw [if_pos hn]
        exact ⟨.starved hp hu.1 hn,hu.2⟩
      · rw [if_neg hn]
        exact decodeAndRetire_meets hu.2 hn hu.1 hp config
    · have ht : turn config env s.phase s=.error e (answered answers left s) := by
        rw [hp]
        exact bind_error hr _
      rw [schedulerStep,ht]
      exact ⟨.crashed hp hc hx,hk⟩

/-- What a step does that is to reserve, decode and retire. -/
theorem StepEffect.stepping (he : StepEffect config env s t) (hp : s.phase=.stepping) :
    (∃ e cache left answers, s.cache=some cache ∧ extendEach (ids s.running) cache=.error e left ∧
      t={answered answers left s with phase := .crashed e}) ∨
    ∃ u, ReserveEffect env s u ∧ (u.running=[] ∧ t={u with phase := .admitting []} ∨
      u.running≠[] ∧ t={retired env (decodedBy config env u) with phase := .admitting []}) := by
  cases he with
  | crashed _ hc hx => exact Or.inl ⟨_,_,_,_,hc,hx,rfl⟩
  | starved _ hr hu => exact Or.inr ⟨_,hr,.inl ⟨hu,rfl⟩⟩
  | decoded _ hr hu => exact Or.inr ⟨_,hr,.inr ⟨hu,rfl⟩⟩
  | _ => simp_all only [reduceCtorEq,exists_false,or_self]

/-- A cache as constructed is in order. -/
theorem fresh_cacheOk (h : Fresh s) : CacheOk s := by
  obtain ⟨cache,rfl,hc⟩ := h
  intro manager hm
  obtain ⟨blockCount,blockSize,policy,he⟩ := hc manager hm
  exact ⟨blockCount,blockSize,policy,
    CachePlacement.reaches_invariant (Machine.Reaches.start he)⟩

/-- The invariant rule for the thread: what a fresh batcher has and every
effect keeps holds between any two steps. -/
theorem reaches_of_effect {P : Batcher → Prop} (h : (schedulerMachine config).Reaches s)
    (hstart : ∀ s, Fresh s → P s)
    (hstep : ∀ s env t, P s → StepEffect config env s t → P t) : CacheOk s ∧ P s := by
  refine h.invariant (P := fun s => CacheOk s ∧ P s) ?_ ?_
  · exact fun s hs => ⟨fresh_cacheOk hs,hstart s hs⟩
  · intro s env t hs ht
    obtain ⟨he,hk⟩ := schedulerStep_effect hs.1 config env
    rw [←ht] at he hk
    exact ⟨hk,hstep s env t hs.2 he⟩

end CudaForge.SchedulerEffects
