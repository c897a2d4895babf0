import CudaForge.ContinuousShutdown
import CudaForge.DynamicBatching
import CudaForge.SettledFutures

/-!
# The two serving engines

`InferenceEngine` puts an executor behind the dynamic batcher, and
`ContinuousEngine` is the continuous batcher with a registry. Both leave no
returned future behind. Two calls of `shutdown` can both find the closed flag
clear, and then one may return while the other one's sweep still has futures
to settle.
-/

namespace CudaForge.ServingEngines

open ServingTypes SubmissionQueue DynamicBatching TransitionRuns FutureRegistry SettledFutures
open SchedulerLedger

/-- What a thread of the executor is doing. -/
inductive Worker where
  | idle
  /-- In `runner.generate`, with the requests that had not expired. -/
  | generating (live : List Request)
  deriving DecidableEq

/-- The dynamic batcher with its executor. -/
structure Inference where
  batcher : DynamicBatcher := {}
  /-- The batches no worker has taken yet. -/
  tasks : List Batch := []
  workers : List Worker
  /-- The executor takes no more batches. -/
  halted : Bool := false

/-- The clock as a step of the engine's threads reads it. -/
structure EngineClock where
  /-- As the collector reads it. -/
  collector : Clock := {}
  /-- When a worker asks which requests are live. -/
  tested : Request → ℚ := fun _ => 0
  /-- When it asks again which have expired. -/
  retested : Request → ℚ := fun _ => 0

/-- A collector's step: dropped requests have their futures settled, and a
batch goes to the executor, which refuses it with an exception once it is shut
down. -/
def collect (config : DynamicConfig) (v : Inference) (clock : EngineClock) :
    Option (Inference×List String) :=
  (collectorStep config clock.collector v.batcher).map fun batcher =>
    ({v with
      batcher := batcher
      tasks := if v.halted then v.tasks
        else v.tasks++batcher.handled.drop v.batcher.handled.length},
      (batcher.dropped.drop v.batcher.dropped.length).map Request.requestId)

/-- The requests of a batch that have not expired. -/
def liveOf (batch : Batch) (clock : EngineClock) : List Request :=
  batch.requests.filter (fun request => !request.expired (clock.tested request))

/-- Those that have, asked again if there are any. -/
def expiredOf (batch : Batch) (clock : EngineClock) : List Request :=
  if (liveOf batch clock).length=batch.requests.length then []
  else batch.requests.filter (fun request => request.expired (clock.retested request))

/-- A worker's step in `_execute`: it settles what expired while the batch was
waiting, and behind the runner's call every live request, with its result or
with the error. -/
def execute (v : Inference) (worker : ℕ) (clock : EngineClock) :
    Option (Inference×List String) :=
  match v.workers[worker]?,v.tasks with
  | some .idle,batch::rest =>
    let live := liveOf batch clock
    some ({v with
      tasks := rest
      workers := v.workers.set worker (if live=[] then .idle else .generating live)},
      (expiredOf batch clock).map Request.requestId)
  | some (.generating live),_ =>
    some ({v with workers := v.workers.set worker .idle},live.map Request.requestId)
  | _,_ => none

/-- No step of the collector touches the event. -/
theorem collectorStep_stopping {config : DynamicConfig} {clock : Clock} {b c : DynamicBatcher}
    (h : collectorStep config clock b=some c) : c.ingress.stopping=b.ingress.stopping := by
  have hdrop : ∀ (request : Request) (kept : Stage) (b : DynamicBatcher),
      (dropOr clock request kept b).ingress=b.ingress := by
    intro request kept b
    rw [dropOr]
    split <;> rfl
  unfold collectorStep at h
  split at h
  · rw [waitStep] at h
    split at h
    · cases h
    · rw [←Option.some.inj h]
      rfl
    · rw [←Option.some.inj h,hdrop]
      rfl
  · rw [←Option.some.inj h,fillStep]
    split
    · split
      · rfl
      · split
        · rfl
        · rfl
        · rw [hdrop]
          rfl
    · rfl
  · rw [←Option.some.inj h,drainStep]
    split
    · split
      · rfl
      · rfl
      · rw [hdrop]
        rfl
    · rfl
  · rw [←Option.some.inj h,repostStep]
    split <;> rfl
  · rw [←Option.some.inj h]
  · cases h

/-- A caller's step never clears the event, and an announcement sets it. -/
theorem call_stopping {capacity : ℕ} {i j : Ingress} {call : Call}
    (h : i.call capacity call=some j) :
    (i.stopping=true → j.stopping=true) ∧ (call=.announce → j.stopping=true) := by
  cases call with
  | submit request =>
    rw [←Option.some.inj h]
    split <;> exact ⟨fun hs => hs,nofun⟩
  | enqueue request =>
    obtain ⟨_,hj⟩ := Option.ite_none_right_eq_some.mp h
    rw [←Option.some.inj hj]
    exact ⟨fun hs => hs,nofun⟩
  | refuse request =>
    obtain ⟨_,hj⟩ := Option.ite_none_right_eq_some.mp h
    rw [←Option.some.inj hj]
    exact ⟨fun hs => hs,nofun⟩
  | shutdown =>
    rw [←Option.some.inj h]
    split <;> exact ⟨fun hs => hs,nofun⟩
  | announce =>
    obtain ⟨_,hj⟩ := Option.ite_none_right_eq_some.mp h
    rw [←Option.some.inj hj]
    exact ⟨fun _ => rfl,fun _ => rfl⟩
  | putSentinel =>
    obtain ⟨_,hj⟩ := Option.ite_none_right_eq_some.mp h
    rw [←Option.some.inj hj]
    exact ⟨fun hs => hs,nofun⟩
  | giveUp =>
    obtain ⟨_,hj⟩ := Option.ite_none_right_eq_some.mp h
    rw [←Option.some.inj hj]
    exact ⟨fun hs => hs,nofun⟩

/-- The collector is the first thread, the workers come behind it. -/
def inferenceWork (config : DynamicConfig) (v : Inference) :
    ℕ → EngineClock → Option (Inference×List String)
  | 0,clock => collect config v clock
  | worker+1,clock => execute v worker clock

/-- No thread of the engine touches the event. -/
theorem inferenceWork_stopping {config : DynamicConfig} {v : Inference} {thread : ℕ}
    {clock : EngineClock} {r : Inference×List String}
    (h : inferenceWork config v thread clock=some r) :
    r.1.batcher.ingress.stopping=v.batcher.ingress.stopping := by
  cases thread with
  | zero =>
    obtain ⟨batcher,hb,rfl⟩ := Option.map_eq_some_iff.mp h
    exact collectorStep_stopping hb
  | succ worker =>
    simp only [inferenceWork,execute] at h
    split at h
    · rw [←Option.some.inj h]
    · rw [←Option.some.inj h]
    · cases h

/-- What stands behind `InferenceEngine`, with this many workers. -/
def inferenceBackend (config : DynamicConfig) (workers : ℕ) :
    Backend Inference EngineClock where
  starts v := v={workers := List.replicate workers .idle}
  threads := workers+1
  stopping v := v.batcher.ingress.stopping
  call v call := (v.batcher.ingress.call config.queueCapacity call).map
    (fun ingress => {v with batcher := {v.batcher with ingress := ingress}})
  work := inferenceWork config
  halt v := {v with halted := true}
  quiet v threads := v.tasks.isEmpty&&v.workers.all (fun worker => decide (worker=.idle))&&
    (threads.drop 1).all (fun completion => decide (completion=.resting))
  call_stopping := by
    intro v call w h hs
    obtain ⟨ingress,hi,rfl⟩ := Option.map_eq_some_iff.mp h
    exact (call_stopping hi).1 hs
  announce_stopping := by
    intro v w h
    obtain ⟨ingress,hi,rfl⟩ := Option.map_eq_some_iff.mp h
    exact (call_stopping hi).2 rfl
  work_stopping := fun _ _ _ _ h hs => (inferenceWork_stopping h).trans hs
  halt_stopping := fun _ hs => hs

/-- A scheduler's step settles the futures of the requests it finished with. -/
def continuousWork (config : ContinuousScheduler.BatcherConfig) (v : ContinuousShutdown.Service) :
    ℕ → ContinuousScheduler.Env → Option (ContinuousShutdown.Service×List String)
  | 0,env => (v.step config (.thread env)).map fun w =>
    (w,((settledOf w.batcher.trace).drop (settledOf v.batcher.trace).length).map
      Request.requestId)
  | _+1,_ => none

/-- What stands behind `ContinuousEngine`. -/
def continuousBackend (config : ContinuousScheduler.BatcherConfig) :
    Backend ContinuousShutdown.Service ContinuousScheduler.Env where
  starts v := v.ingress={} ∧ ContinuousScheduler.Fresh v.batcher
  threads := 1
  stopping v := v.ingress.stopping
  call v call := v.step config (.caller call)
  work := continuousWork config
  halt v := v
  quiet _ _ := true
  call_stopping := by
    intro v call w h hs
    obtain ⟨ingress,hi,rfl⟩ := Option.map_eq_some_iff.mp h
    exact (call_stopping hi).1 hs
  announce_stopping := by
    intro v w h
    obtain ⟨ingress,hi,rfl⟩ := Option.map_eq_some_iff.mp h
    exact (call_stopping hi).2 rfl
  work_stopping := by
    intro v thread env r h hs
    cases thread with
    | zero =>
      simp only [continuousWork] at h
      obtain ⟨w,hw,rfl⟩ := Option.map_eq_some_iff.mp h
      rw [←Option.some.inj hw]
      exact Bool.or_eq_true_iff.mpr (Or.inl hs)
    | succ thread => cases h
  halt_stopping := fun _ hs => hs

/-- Both engines, in every run: no future is settled twice, and once a shutdown
call has returned behind its sweep no returned future is stranded. -/
theorem engines_settle :
    (∀ (config : DynamicConfig) (workers : ℕ) (e : Engine Inference),
      (engineMachine (inferenceBackend config workers)).Reaches e → Settles e) ∧
    ∀ (config : ContinuousScheduler.BatcherConfig) (e : Engine ContinuousShutdown.Service),
      (engineMachine (continuousBackend config)).Reaches e → Settles e :=
  ⟨fun _ _ _ h => reaches_settles h,fun _ _ h => reaches_settles h⟩

/-- As `Settles`, but with no sweep of another shutdown call. -/
def StrictlySettles {σ : Type} (e : Engine σ) : Prop :=
  e.settled.Nodup ∧ (.returned∈e.shutdowns → ∀ request, .returned request∈e.submissions →
    (request.requestId∈e.settled ∨ Claimed e request.requestId) ∧
      request.requestId∉e.registry)

theorem pair_wait : (0 : ℚ)≤1 := by decide

theorem pair_capacity : 2≤4 := by decide

/-- A batcher for two requests and the sentinel. -/
def pairConfig : DynamicConfig := ⟨2,1,4,id,Nat.two_pos,pair_wait,pair_capacity⟩

/-- A request to generate one token. -/
def namedRequest (name : String) : Request :=
  {requestId := name, prompt := name, generation := GenerationSettings.defaultGeneration,
    enqueuedAt := 0}

/-- Two submissions return their futures; then two shutdown calls both find
the engine open. The first waits in vain for the batcher, the second sweeps
both futures, and the first finds nothing to sweep and returns. -/
def racingShutdowns : List (Action EngineClock) :=
  [.submit,.submit,.readClosed 0,.readClosed 1,.register 0 (namedRequest "a") true,
    .register 1 (namedRequest "b") true,.readEvent 0,.readEvent 1,.put 0,.put 1,
    .shutdown,.shutdown,.proceed 0 false,.proceed 1 false,.proceed 0 false,.proceed 0 false,
    .proceed 0 false,.proceed 0 false,.proceed 0 false,.proceed 1 false,.proceed 1 false,
    .proceed 1 false,.proceed 1 false,.proceed 0 false,.proceed 0 false,.proceed 0 false]

/-- A new engine with one worker. -/
def newEngine : Engine Inference :=
  {back := {workers := [.idle]}, threads := [.resting,.resting]}

theorem newEngine_starts : (engineMachine (inferenceBackend pairConfig 1)).starts newEngine :=
  ⟨_,rfl,rfl⟩

/-- The first call has returned, and the second future waits behind the first
in the sweep of the second call. -/
theorem racingShutdowns_strand :
    ¬((∀ (config : DynamicConfig) (workers : ℕ) (e : Engine Inference),
        (engineMachine (inferenceBackend config workers)).Reaches e → StrictlySettles e) ∧
      ∀ (config : ContinuousScheduler.BatcherConfig) (e : Engine ContinuousShutdown.Service),
        (engineMachine (continuousBackend config)).Reaches e → StrictlySettles e) := by
  intro h
  obtain ⟨e,hr,hreturned,hb,hs,hc⟩ := Machine.Reaches.replayed
    (m := engineMachine (inferenceBackend pairConfig 1))
    (P := fun e => .returned∈e.shutdowns ∧ .returned (namedRequest "b")∈e.submissions ∧
      "b"∉e.settled ∧ e.threads=List.replicate 2 .resting) (fun _ _ => true)
    (fun _ _ _ h => h) racingShutdowns (.start newEngine_starts) (by decide +kernel)
  obtain ⟨hplace,_⟩ := (h.1 pairConfig 1 e hr.of_guarded).2 hreturned (namedRequest "b") hb
  rcases hplace with hsettled | ⟨completion,hm,rest,rfl⟩
  · exact hs hsettled
  · rw [hc] at hm
    exact absurd (List.eq_of_mem_replicate hm) Completion.noConfusion

/-- The same run up to the end of both sweeps. -/
def bothShutdowns : List (Action EngineClock) :=
  racingShutdowns++[.proceed 1 false,.proceed 1 false,.proceed 1 false]

theorem bothShutdowns_settle : ∃ e, (engineMachine (inferenceBackend pairConfig 1)).Reaches e ∧
    e.shutdowns=[.returned,.returned] ∧ e.settled=["a","b"] ∧ Settles e := by
  obtain ⟨e,hr,hd,hs⟩ := Machine.Reaches.replayed
    (m := engineMachine (inferenceBackend pairConfig 1))
    (P := fun e => e.shutdowns=[.returned,.returned] ∧ e.settled=["a","b"]) (fun _ _ => true)
    (fun _ _ _ h => h) bothShutdowns (.start newEngine_starts) (by decide +kernel)
  exact ⟨e,hr.of_guarded,hd,hs,engines_settle.1 pairConfig 1 e hr.of_guarded⟩

end CudaForge.ServingEngines
