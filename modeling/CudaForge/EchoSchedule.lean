import CudaForge.AliveSequences
import CudaForge.ContinuousShutdown
import CudaForge.EchoRunner

/-!
# The continuous batcher over the echo runner

The scheduler thread without a cache, over the echo runner, with all requests
in the queue before its first pass; later only sentinels come. What the
completion callback gets is recorded. A step admits the request in front,
decodes every row, or only moves on.
-/

namespace CudaForge.EchoSchedule

open ExceptionState CacheBlocks ServingTypes ContinuousScheduler SchedulerEffects
open SubmissionQueue ContinuousShutdown EchoRunner AliveSequences TransitionRuns

/-- The thread with its queue. -/
structure Echoing where
  queue : List (Option Request)
  batcher : Batcher := {}
  /-- What the completion callback got from `_retire`, in order. -/
  handed : List (Request×SequenceState) := []
  /-- The steps of the thread so far. -/
  turns : ℕ := 0

/-- A step of the thread, or of a shutdown. -/
inductive Action where
  /-- The thread goes on; the clocks, and which callbacks raise, are free. -/
  | thread (now checkedAt : ℚ) (completeRaises : SequenceId → Bool)
  /-- A shutdown puts its sentinel. -/
  | close

/-- What the runner writes to a sequence: something in `decode_step`, nothing
in `prefill`. -/
def writes (stopAfter : StopAfter) (phase : Phase) (state : SequenceState) : Progress :=
  match phase with
  | .stepping =>
    let next := decodeOne stopAfter state
    ⟨next.tokens,next.stoppedEarly,next.promptTokens⟩
  | _ => ⟨state.tokens,state.stoppedEarly,state.promptTokens⟩

/-- What a step finds. -/
def Echoing.found (stopAfter : StopAfter) (v : Echoing) (now checkedAt : ℚ)
    (completeRaises : SequenceId → Bool) : Env where
  read := frontOf v.queue
  queueEmpty := v.queue.isEmpty
  now := now
  checkedAt := checkedAt
  advance := writes stopAfter v.batcher.phase
  completeRaises := completeRaises

/-- The rows that `_retire` hands back in a step. -/
def handedBack (config : BatcherConfig) (env : Env) (s : Batcher) :
    List (Request×SequenceState) :=
  match s.phase with
  | .stepping =>
    match (do
      reserveStep env
      let u ← get
      ContinuousScheduler.decodeStep config env (u.running.map Prod.snd) : BatcherM Unit) s with
    | .ok _ u => u.running.filter (fun row => row.2.finished)
    | .error _ _ => []
  | _ => []

/-- The thread's step. -/
def Echoing.thread (config : BatcherConfig) (v : Echoing) (env : Env) : Echoing where
  queue := if readsQueue config v.batcher then v.queue.tail else v.queue
  batcher := schedulerStep config env v.batcher
  handed := v.handed++handedBack config env v.batcher
  turns := v.turns+1

/-- What a step does. -/
def Echoing.step (config : BatcherConfig) (stopAfter : StopAfter) (v : Echoing) :
    Action → Echoing
  | .thread now checkedAt completeRaises =>
    v.thread config (v.found stopAfter now checkedAt completeRaises)
  | .close => {v with queue := v.queue++[none]}

/-- The runs with all requests in the queue before the first pass. -/
def echoMachine (config : BatcherConfig) (stopAfter : StopAfter) (requests : List Request) :
    Machine Echoing Action where
  starts v := v={queue := requests.map some}
  steps v action w := w=v.step config stopAfter action

/-- The requests that wait. -/
def Echoing.waiting (v : Echoing) : List Request := requestsIn v.queue

/-- No cache, nobody deferred, sentinels behind the requests, and no
deadlines. -/
structure Plain (v : Echoing) : Prop where
  cacheless : v.batcher.cache=none
  undeferred : v.batcher.deferred=none
  sentinels : ∃ count, v.queue=v.waiting.map some++List.replicate count none
  timeless : ∀ request∈v.waiting, request.deadline=none

/-- A row after a step of the runner. -/
def stepped (stopAfter : StopAfter) (row : Request×SequenceState) : Request×SequenceState :=
  (row.1,decodeOne stopAfter row.2)

/-- Steps that only move on. -/
inductive Moves (config : BatcherConfig) (v : Echoing) : Phase → Prop
  | full {admitted : List SequenceState} (hp : v.batcher.phase=.admitting admitted)
      (hm : config.maxBatch≤v.batcher.running.length+admitted.length) :
      Moves config v (.prefilling admitted)
  | emptied {admitted : List SequenceState} (hp : v.batcher.phase=.admitting admitted)
      (hw : v.waiting=[]) : Moves config v (.prefilling admitted)
  | sentinel {admitted : List SequenceState} (hp : v.batcher.phase=.admitting admitted)
      (hw : v.waiting=[]) : Moves config v (.closing admitted)
  | closed {admitted : List SequenceState} (hp : v.batcher.phase=.closing admitted) :
      Moves config v (.prefilling admitted)
  | prefilled {admitted : List SequenceState} (hp : v.batcher.phase=.prefilling admitted) :
      Moves config v .testing
  | returned (hp : v.batcher.phase=.testing) (hr : v.batcher.running=[]) (hw : v.waiting=[]) :
      Moves config v .returned
  | idled (hp : v.batcher.phase=.testing) (hr : v.batcher.running=[]) :
      Moves config v (.admitting [])
  | busy (hp : v.batcher.phase=.testing) (hr : v.batcher.running≠[]) : Moves config v .stepping
  | starved (hp : v.batcher.phase=.stepping) (hr : v.batcher.running=[]) :
      Moves config v (.admitting [])
  | halted (hp : v.batcher.phase=.returned ∨ ∃ e, v.batcher.phase=.crashed e) :
      Moves config v v.batcher.phase

/-- Everything a step of the thread can do. -/
inductive Course (config : BatcherConfig) (stopAfter : StopAfter) (v w : Echoing) : Prop
  /-- The request in front is admitted. -/
  | admits {admitted : List SequenceState} {read request : Request}
      (hp : v.batcher.phase=.admitting admitted)
      (hm : v.batcher.running.length+admitted.length<config.maxBatch)
      (hw : v.waiting=read::w.waiting) (hu : unstamped request=unstamped read)
      (hl : request.prompt=read.prompt ∧ request.generation=read.generation)
      (hr : w.batcher.running=
        v.batcher.running++[(request,newSequence v.batcher request)])
      (ha : w.batcher.phase=.admitting (admitted++[newSequence v.batcher request]))
      (hs : w.batcher.stats=v.batcher.stats) (hh : w.handed=v.handed)
  /-- Every row takes a step. -/
  | decodes (hp : v.batcher.phase=.stepping) (hn : v.batcher.running≠[])
      (hr : w.batcher.running=
        (v.batcher.running.map (stepped stopAfter)).filter (fun row => !row.2.finished))
      (ha : w.batcher.phase=.admitting []) (hw : w.waiting=v.waiting)
      (hh : w.handed=v.handed++
        (v.batcher.running.map (stepped stopAfter)).filter (fun row => row.2.finished))
      (hd : w.batcher.stats.decodeSteps=v.batcher.stats.decodeSteps+1)
      (ho : w.batcher.stats.occupiedRows=
        v.batcher.stats.occupiedRows+v.batcher.running.length)
      (hc : w.batcher.stats.completions=v.batcher.stats.completions+
        ((v.batcher.running.map (stepped stopAfter)).filter (fun row => row.2.finished)).length)
  /-- Nothing but the phase changes. -/
  | moves (hp : Moves config v w.batcher.phase) (hr : w.batcher.running=v.batcher.running)
      (hw : w.waiting=v.waiting) (hh : w.handed=v.handed)
      (hd : w.batcher.stats.decodeSteps=v.batcher.stats.decodeSteps)
      (ho : w.batcher.stats.occupiedRows=v.batcher.stats.occupiedRows)
      (hc : w.batcher.stats.completions=v.batcher.stats.completions)

section Steps

variable {config : BatcherConfig} {stopAfter : StopAfter} {v : Echoing}

/-- What is in front of the queue. -/
theorem Plain.front (h : Plain v) :
    (∃ read rest, v.waiting=read::rest ∧ frontOf v.queue=.request read ∧
      requestsIn v.queue.tail=rest ∧
      ∃ count, v.queue.tail=rest.map some++List.replicate count none) ∨
    v.waiting=[] ∧ requestsIn v.queue.tail=[] ∧
      (frontOf v.queue=.empty ∨ frontOf v.queue=.sentinel) ∧
      ∃ count, v.queue.tail=List.replicate count none := by
  obtain ⟨count,hq⟩ := h.sentinels
  have hin : ∀ (requests : List Request) (count : ℕ),
      requestsIn (requests.map some++List.replicate count none)=requests := by
    intro requests count
    have hnone : requestsIn (List.replicate count none)=[] := by
      rw [requestsIn,List.filterMap_eq_nil_iff]
      intro entry hm
      exact List.eq_of_mem_replicate hm ▸ rfl
    rw [requestsIn_append,hnone,List.append_nil,requestsIn,List.filterMap_map]
    exact List.filterMap_some
  cases hw : v.waiting with
  | nil =>
    rw [hw,List.map_nil,List.nil_append] at hq
    refine Or.inr ⟨rfl,?_,?_,count-1,?_⟩
    · rw [hq,List.tail_replicate]
      exact hin [] (count-1)
    · rw [hq]
      cases count with
      | zero => exact Or.inl rfl
      | succ count => exact Or.inr rfl
    · rw [hq,List.tail_replicate]
  | cons read rest =>
    rw [hw,List.map_cons,List.cons_append] at hq
    refine Or.inl ⟨read,rest,rfl,?_,?_,count,?_⟩
    · rw [hq]
      rfl
    · rw [hq]
      exact hin rest count
    · rw [hq]
      rfl

/-- In `prefill` the runner writes nothing. -/
theorem advanceRow_idle {env : Env} (passed : List SequenceId)
    (h : ∀ state, env.advance state=⟨state.tokens,state.stoppedEarly,state.promptTokens⟩)
    (rows : List (Request×SequenceState)) : rows.map (advanceRow env passed)=rows := by
  have he : ∀ row∈rows, advanceRow env passed row=row := by
    intro row _
    rw [advanceRow,h]
    split <;> rfl
  rw [List.map_congr_left he,List.map_id']

/-- In `decode_step` every row passed takes a step. -/
theorem advanceRow_stepped {env : Env} (h : env.advance=writes stopAfter .stepping)
    (rows : List (Request×SequenceState)) :
    rows.map (advanceRow env (ids rows))=rows.map (stepped stopAfter) := by
  refine List.map_congr_left (fun row hm => ?_)
  have hi : row.2.sequenceId∈ids rows := List.mem_map_of_mem hm
  rw [advanceRow,if_pos hi,h,stepped,writes]
  refine Prod.ext rfl ?_
  -- the runner writes no other field
  have hkeep : ∀ state : SequenceState, (decodeOne stopAfter state).sequenceId=state.sequenceId ∧
      (decodeOne stopAfter state).prompt=state.prompt ∧
      (decodeOne stopAfter state).generation=state.generation := by
    intro state
    rw [decodeOne]
    split
    · exact ⟨rfl,rfl,rfl⟩
    · rw [advance]
      split
      · split <;> exact ⟨rfl,rfl,rfl⟩
      · exact ⟨rfl,rfl,rfl⟩
  obtain ⟨hs,hp,hg⟩ := hkeep row.2
  generalize decodeOne stopAfter row.2=next at hs hp hg
  obtain ⟨sequence,prompt,generation,tokens,stopped,counted⟩ := next
  subst hs hp hg
  rfl

/-- The rows a step hands back are the finished ones. -/
theorem handedBack_eq {s : Batcher} {env : Env} (hc : s.cache=none) (hp : s.phase=.stepping)
    (h : env.advance=writes stopAfter .stepping) :
    handedBack config env s=
      (s.running.map (stepped stopAfter)).filter (fun row => row.2.finished) := by
  have hi : (s.running.map Prod.snd).map SequenceState.sequenceId=ids s.running := by
    rw [List.map_map]
    rfl
  have hreserve : reserveStep env s=.ok () s := by
    rw [reserveStep,bind_get,hc]
    rfl
  rw [handedBack,hp]
  simp only
  rw [bind_ok hreserve,bind_get,ContinuousScheduler.decodeStep,hi]
  have hrows := advanceRow_stepped h s.running
  rw [←hrows]
  rfl

/-- So many completions were counted. -/
theorem iterate_completions (count : ℕ) (stats : ContinuousStats) :
    (addCompletion^[count] stats).completions=stats.completions+count := by
  induction count generalizing stats with
  | zero => rfl
  | succ count ih =>
    have hs : (addCompletion stats).completions=stats.completions+1 := rfl
    rw [Function.iterate_succ_apply,ih,hs]
    omega

/-- Only a step with rows to decode hands any back. -/
theorem handedBack_nil {s : Batcher} {env : Env} (hp : s.phase≠.stepping) :
    handedBack config env s=[] := by
  rw [handedBack]
  split
  · next hs => exact absurd hs hp
  · rfl

/-- A step that leaves the queue keeps what is plain. -/
theorem Plain.keeps {w : Echoing} (h : Plain v) (hq : w.queue=v.queue)
    (hc : w.batcher.cache=none) (hd : w.batcher.deferred=none) : Plain w := by
  have hw : w.waiting=v.waiting := congrArg requestsIn hq
  refine ⟨hc,hd,?_,?_⟩
  · rw [hw,hq]
    exact h.sentinels
  · rw [hw]
    exact h.timeless

/-- Without a cache an admitted request gets its row. -/
theorem cacheless_start {env : Env} {request : Request} {admitted : List SequenceState}
    {s t : Batcher} {offer : Bool×List SequenceState} (hc : s.cache=none)
    (ho : OfferEffect config env request admitted s offer t) :
    offer=(true,admitted++[newSequence s request]) ∧
      t=withRow request (newSequence s request) {s with nextId := s.nextId+1} := by
  have hg : offerGranted config s request=true := by rw [offerGranted,hc]
  have hv : offerVictims config s request=[] := by rw [offerVictims,hc]
  have ha : asked config request s={s with nextId := s.nextId+1} := by
    rw [asked,hc,Option.map_none,←hc]
  cases ho with
  | started _ =>
    rw [hv,evicted_nil,ha]
    exact ⟨rfl,rfl⟩
  | rejected _ _ _ _ hr => exact absurd (hg.symm.trans hr) (by intro hs; cases hs)
  | deferred _ hr => exact absurd (hg.symm.trans hr) (by intro hs; cases hs)

/-- Every step of the thread takes one of these courses. -/
theorem thread_course (config : BatcherConfig) (stopAfter : StopAfter) (h : Plain v)
    (now checkedAt : ℚ) (completeRaises : SequenceId → Bool) :
    Course config stopAfter v (v.step config stopAfter (.thread now checkedAt completeRaises)) ∧
      Plain (v.step config stopAfter (.thread now checkedAt completeRaises)) := by
  have hk : CacheOk v.batcher := fun cache hc =>
    absurd (h.cacheless.symm.trans hc) (by intro hs; cases hs)
  obtain ⟨he,_⟩ := schedulerStep_effect hk config (v.found stopAfter now checkedAt completeRaises)
  rw [Echoing.step,Echoing.thread]
  generalize henv : v.found stopAfter now checkedAt completeRaises=env at he
  have hread : env.read=frontOf v.queue := by rw [←henv]; rfl
  have hempty : env.queueEmpty=v.queue.isEmpty := by rw [←henv]; rfl
  have hadvance : env.advance=writes stopAfter v.batcher.phase := by rw [←henv]; rfl
  generalize schedulerStep config env v.batcher=t at he
  have hreads : ∀ {admitted : List SequenceState}, v.batcher.phase=.admitting admitted →
      v.batcher.running.length+admitted.length<config.maxBatch →
      readsQueue config v.batcher=true := by
    intro admitted hp hm
    simp only [readsQueue,hp,hm,h.undeferred,decide_true,Option.isNone_none,Bool.and_self]
  -- a step that does not read leaves the queue
  have hstays : ∀ {phase : Phase}, v.batcher.phase=phase →
      (∀ admitted, phase≠.admitting admitted) → readsQueue config v.batcher=false := by
    intro phase hp hn
    rw [readsQueue,hp]
    cases phase with
    | admitting admitted => exact absurd rfl (hn admitted)
    | _ => rfl
  have hquiet : v.batcher.phase≠.stepping → v.handed++handedBack config env v.batcher=v.handed := by
    intro hp
    rw [handedBack_nil hp,List.append_nil]
  cases he with
  | @full admitted hp hm =>
    have hr : readsQueue config v.batcher=false := by
      simp only [readsQueue,hp,Nat.not_lt.mpr hm,decide_false,Bool.false_and]
    rw [hr,hquiet (by rw [hp]; intro hs; cases hs)]
    exact ⟨.moves (.full hp hm) rfl rfl rfl rfl rfl rfl,h.keeps rfl h.cacheless h.undeferred⟩
  | @emptied admitted hp hm _ hr =>
    rw [hreads hp hm,hquiet (by rw [hp]; intro hs; cases hs)]
    rcases h.front with ⟨read,rest,_,hf,_,_⟩ | ⟨hw,ht,_,count,hq⟩
    · exact absurd (hr.symm.trans (hread.trans hf)) (by intro hs; cases hs)
    · refine ⟨.moves (.emptied hp hw) rfl (ht.trans hw.symm) rfl rfl rfl rfl,
        h.cacheless,h.undeferred,?_,?_⟩
      · refine ⟨count,?_⟩
        rw [Echoing.waiting,if_pos rfl,ht]
        exact hq
      · rw [Echoing.waiting,if_pos rfl,ht]
        exact fun _ hm => absurd hm List.not_mem_nil
  | @sentinel admitted hp hm _ hr =>
    rw [hreads hp hm,hquiet (by rw [hp]; intro hs; cases hs)]
    rcases h.front with ⟨read,rest,_,hf,_,_⟩ | ⟨hw,ht,_,count,hq⟩
    · exact absurd (hr.symm.trans (hread.trans hf)) (by intro hs; cases hs)
    · refine ⟨.moves (.sentinel hp hw) rfl (ht.trans hw.symm) rfl rfl rfl rfl,
        h.cacheless,h.undeferred,?_,?_⟩
      · refine ⟨count,?_⟩
        rw [Echoing.waiting,if_pos rfl,ht]
        exact hq
      · rw [Echoing.waiting,if_pos rfl,ht]
        exact fun _ hm => absurd hm List.not_mem_nil
  | @expired admitted request u hp hm _ hh hx =>
    cases hh with
    | deferred hs => exact absurd (hs.symm.trans h.undeferred) (by intro hs; cases hs)
    | @read read _ hr hs =>
      rcases h.front with ⟨front,rest,hw,hf,_,_⟩ | ⟨_,_,hf | hf,_⟩
      · have hsame : front=read := QueueRead.request.inj (hf.symm.trans (hread.symm.trans hr))
        have hno := h.timeless read (hsame ▸ hw ▸ List.mem_cons_self)
        rw [hs,Request.expired] at hx
        simp only [hno] at hx
        cases hx
      · exact absurd (hr.symm.trans (hread.trans hf)) (by intro hs; cases hs)
      · exact absurd (hr.symm.trans (hread.trans hf)) (by intro hs; cases hs)
  | @offered admitted request offer u x hp hm hh _ ho =>
    cases hh with
    | deferred hs => exact absurd (hs.symm.trans h.undeferred) (by intro hs; cases hs)
    | @read read _ hr hs =>
      rcases h.front with ⟨front,rest,hw,hf,ht,count,hq⟩ | ⟨_,_,hf | hf,_⟩
      · have hsame : front=read := QueueRead.request.inj (hf.symm.trans (hread.symm.trans hr))
        obtain ⟨rfl,rfl⟩ := cacheless_start (s := {v.batcher with
          trace := v.batcher.trace++[.dequeued request]}) h.cacheless ho
        rw [hreads hp hm,hquiet (by rw [hp]; intro hs; cases hs)]
        refine ⟨@Course.admits config stopAfter v _ admitted read request hp hm
            ?_ ?_ ?_ rfl rfl rfl rfl,
          h.cacheless,h.undeferred,?_,?_⟩
        · exact hw.trans (congrArg₂ List.cons hsame ht.symm)
        · rw [hs]
          rfl
        · rw [hs]
          exact ⟨rfl,rfl⟩
        · refine ⟨count,?_⟩
          rw [Echoing.waiting,if_pos rfl,ht]
          exact hq
        · rw [Echoing.waiting,if_pos rfl,ht]
          exact fun other hm => h.timeless other (hw ▸ List.mem_cons_of_mem _ hm)
      · exact absurd (hr.symm.trans (hread.trans hf)) (by intro hs; cases hs)
      · exact absurd (hr.symm.trans (hread.trans hf)) (by intro hs; cases hs)
  | @closed admitted hp =>
    rw [hstays hp (by intro admitted hs; cases hs),hquiet (by rw [hp]; intro hs; cases hs)]
    exact ⟨.moves (.closed hp) rfl rfl rfl rfl rfl rfl,h.keeps rfl h.cacheless h.undeferred⟩
  | prefilledNothing hp =>
    rw [hstays hp (by intro admitted hs; cases hs),hquiet (by rw [hp]; intro hs; cases hs)]
    exact ⟨.moves (.prefilled hp) rfl rfl rfl rfl rfl rfl,h.keeps rfl h.cacheless h.undeferred⟩
  | @prefilled admitted hp _ =>
    rw [hstays hp (by intro admitted hs; cases hs),hquiet (by rw [hp]; intro hs; cases hs)]
    have hidle : (prefilledBy env admitted v.batcher).running=v.batcher.running := by
      refine advanceRow_idle _ (fun state => ?_) _
      rw [hadvance,hp]
      rfl
    exact ⟨.moves (.prefilled hp) hidle rfl rfl rfl rfl rfl,h.keeps rfl h.cacheless h.undeferred⟩
  | returned hp hr _ hq =>
    rw [hstays hp (by intro admitted hs; cases hs),hquiet (by rw [hp]; intro hs; cases hs)]
    have hw : v.waiting=[] := by
      rw [Echoing.waiting,List.isEmpty_iff.mp (hempty.symm.trans hq)]
      rfl
    exact ⟨.moves (.returned hp hr hw) rfl rfl rfl rfl rfl rfl,
      h.keeps rfl h.cacheless h.undeferred⟩
  | idled hp hr _ =>
    rw [hstays hp (by intro admitted hs; cases hs),hquiet (by rw [hp]; intro hs; cases hs)]
    exact ⟨.moves (.idled hp hr) rfl rfl rfl rfl rfl rfl,h.keeps rfl h.cacheless h.undeferred⟩
  | busy hp hr =>
    rw [hstays hp (by intro admitted hs; cases hs),hquiet (by rw [hp]; intro hs; cases hs)]
    exact ⟨.moves (.busy hp hr) rfl rfl rfl rfl rfl rfl,h.keeps rfl h.cacheless h.undeferred⟩
  | crashed _ hc _ => exact absurd (h.cacheless.symm.trans hc) (by intro hs; cases hs)
  | @starved u hp hr hu =>
    cases hr with
    | paid hc _ => exact absurd (h.cacheless.symm.trans hc) (by intro hs; cases hs)
    | unbounded _ =>
      have hrows : handedBack config env v.batcher=[] := by
        rw [handedBack_eq h.cacheless hp (by rw [hadvance,hp]),hu]
        rfl
      rw [hstays hp (by intro admitted hs; cases hs),hrows,List.append_nil]
      exact ⟨.moves (.starved hp hu) rfl rfl rfl rfl rfl rfl,
        h.keeps rfl h.cacheless h.undeferred⟩
  | @decoded u hp hr hu =>
    cases hr with
    | paid hc _ => exact absurd (h.cacheless.symm.trans hc) (by intro hs; cases hs)
    | unbounded _ =>
      have hadv : env.advance=writes stopAfter .stepping := by rw [hadvance,hp]
      have hrows := advanceRow_stepped hadv v.batcher.running
      have hfinished : (decodedBy config env v.batcher).running.filter
          (fun row => row.2.finished)=
          (v.batcher.running.map (stepped stopAfter)).filter (fun row => row.2.finished) :=
        congrArg _ hrows
      rw [hstays hp (by intro admitted hs; cases hs),handedBack_eq h.cacheless hp hadv]
      refine ⟨.decodes hp hu ?_ rfl rfl rfl ?_ ?_ ?_,h.keeps rfl ?_ h.undeferred⟩
      · exact congrArg (List.filter (fun row => !row.2.finished)) hrows
      · exact iterate_keeps addCompletion (fun _ => rfl) _ (decodedBy config env v.batcher).stats
      · exact iterate_keeps addCompletion (fun _ => rfl) _ (decodedBy config env v.batcher).stats
      · rw [←hfinished]
        exact iterate_completions _ (decodedBy config env v.batcher).stats
      · have hn : (decodedBy config env v.batcher).cache=none := h.cacheless
        exact congrArg (Option.map _) hn
  | halted hp =>
    have hr : readsQueue config v.batcher=false := by
      rcases hp with hp | ⟨e,hp⟩
      · exact hstays hp (by intro admitted hs; cases hs)
      · exact hstays hp (by intro admitted hs; cases hs)
    have hs : v.batcher.phase≠.stepping := by
      rcases hp with hp | ⟨e,hp⟩
      · rw [hp]; intro hs; cases hs
      · rw [hp]; intro hs; cases hs
    rw [hr,hquiet hs]
    exact ⟨.moves (.halted hp) rfl rfl rfl rfl rfl rfl,h.keeps rfl h.cacheless h.undeferred⟩

end Steps

end CudaForge.EchoSchedule
