import CudaForge.AliveSequences
import CudaForge.ContinuousShutdown
import CudaForge.FailingRunner

/-!
# What a failing runner does to the continuous batcher

The scheduler thread over a runner that may raise, together with its callers.
The first call that raises ends the thread; until then every run is one of a
runner that does not raise.
-/

namespace CudaForge.RunnerFailures

open PythonBuiltins CacheBlocks CacheManager ServingTypes ContinuousScheduler SchedulerLedger
open SubmissionQueue ContinuousShutdown AliveSequences FailingRunner TransitionRuns

variable {config : BatcherConfig}

/-- The batcher with its callers and its runner. -/
structure Exposed where
  service : Service
  /-- The calls of the runner that raised. -/
  failures : List RunnerCall := []

/-- A step of a caller, or one of the thread with the call that raises in
it. -/
inductive Action where
  | caller (call : Call)
  | thread (env : Env) (raises : Raising)

/-- The thread's step. -/
def Exposed.thread (config : BatcherConfig) (v : Exposed) (env : Env) (raises : Raising) :
    Exposed :=
  let after := exposedStep config raises (seen v.service env) v.service.batcher
  {
    service := {
      ingress := {v.service.ingress with
        queue := if readsQueue config v.service.batcher then v.service.ingress.queue.tail
          else v.service.ingress.queue
        stopping := v.service.ingress.stopping || after.1.stopping}
      batcher := after.1}
    failures := v.failures++after.2.toList}

/-- What a step does, if it can be taken now. -/
def Exposed.step (config : BatcherConfig) (v : Exposed) : Action → Option Exposed
  | .caller call =>
    (v.service.step config (.caller call)).map (fun service => {v with service := service})
  | .thread env raises => some (v.thread config env raises)

/-- The batcher, its callers and its runner, from construction on. -/
def exposedMachine (config : BatcherConfig) : Machine Exposed Action where
  starts v := v.service.ingress={} ∧ Fresh v.service.batcher ∧ v.failures=[]
  steps v action w := v.step config action=some w

/-- No request is put after the thread has returned. -/
def inTime (v : Exposed) : Action → Bool
  | .caller call => timely v.service (.caller call)
  | .thread _ _ => true

/-- No call of the runner raises, and no request is put after the thread has
returned. -/
def calm (v : Exposed) : Action → Bool
  | .caller call => timely v.service (.caller call)
  | .thread _ raises => raises.isNone

/-- How often a sequence was settled. -/
def settledTimes (sequence : SequenceId) (trace : List Event) : ℕ :=
  trace.countP (fun event => match event with
    | .settled _ _ (some other) => other==sequence
    | _ => false)

/-- The failures of the runner concern the sequences that were in the failing
calls, and nobody else. -/
structure Contained (v : Exposed) : Prop where
  /-- The thread keeps running. -/
  running : ∀ e, v.service.batcher.phase≠.crashed e
  /-- The sequences in a failing call are settled, once. -/
  settled : ∀ call∈v.failures, ∀ sequence∈call.sequences,
    settledTimes sequence v.service.batcher.trace=1
  /-- Their blocks are released. -/
  released : ∀ call∈v.failures, ∀ sequence∈call.sequences, ∀ cache,
    v.service.batcher.cache=some cache → cache.isAdmitted sequence=false
  /-- The drain settles every accepted request. -/
  drained : NothingLost v.service

/-- A thread that has ended does nothing more. -/
theorem exposedStep_crashed {s : Batcher} {e : PyError} (h : s.phase=.crashed e)
    (raises : Raising) (env : Env) : exposedStep config raises env s=(s,none) := by
  rw [exposedStep,h]
  rfl

/-- As long as no call has raised, the run is one of a runner that does not
raise; a call that has raised has ended the thread. -/
theorem reaches_service {v : Exposed}
    (h : ((exposedMachine config).guarded (fun v action => inTime v action=true)).Reaches v) :
    v.failures=[] ∧
      ((serviceMachine config).guarded (fun v action => timely v action=true)).Reaches v.service ∨
    v.failures≠[] ∧ ∃ e, v.service.batcher.phase=.crashed e := by
  induction h with
  | start hv => exact Or.inl ⟨hv.2.2,.start ⟨hv.1,hv.2.1⟩⟩
  | @step v w action _ hs hv =>
    cases action with
    | caller call =>
      obtain ⟨service,hc,hw⟩ := Option.map_eq_some_iff.mp hs.2
      rw [←hw]
      refine hv.imp (fun hr => ⟨hr.1,hr.2.step ⟨hs.1,hc⟩⟩) (fun hr => ⟨hr.1,?_⟩)
      obtain ⟨ingress,_,hi⟩ := Option.map_eq_some_iff.mp hc
      rw [←hi]
      exact hr.2
    | thread env raises =>
      rw [←Option.some.inj hs.2,Exposed.thread]
      rcases hv with ⟨hf,hr⟩ | ⟨hf,e,he⟩
      · rcases exposedStep_cases (seen v.service env) v.service.batcher config raises with
          hx | ⟨call,error,_,hp,hc⟩
        · refine Or.inl ⟨?_,?_⟩
          · rw [hx,hf]
            rfl
          · rw [hx]
            exact hr.step (a := .thread env) ⟨rfl,rfl⟩
        · refine Or.inr ⟨?_,error,hp⟩
          rw [hc]
          exact List.append_ne_nil_of_right_ne_nil _ (List.cons_ne_nil _ _)
      · refine Or.inr ⟨?_,e,?_⟩
        · exact List.append_ne_nil_of_left_ne_nil hf _
        · rw [exposedStep_crashed he]
          exact he

/-- The thread of a service runs as it does on its own. -/
theorem reaches_batcher {v : Service} (h : (serviceMachine config).Reaches v) :
    (schedulerMachine config).Reaches v.batcher := by
  induction h with
  | start hv => exact .start hv.2
  | @step v w action _ hs hv =>
    cases action with
    | caller call =>
      obtain ⟨ingress,_,hw⟩ := Option.map_eq_some_iff.mp hs
      rw [←hw]
      exact hv
    | thread env =>
      rw [←Option.some.inj hs]
      exact hv.step (a := seen v env) rfl

/-- In a calm run no call has raised. -/
theorem calm_unfailing {v : Exposed}
    (h : ((exposedMachine config).guarded (fun v action => calm v action=true)).Reaches v) :
    ((exposedMachine config).guarded (fun v action => inTime v action=true)).Reaches v ∧
      v.failures=[] := by
  induction h with
  | start hv => exact ⟨.start hv,hv.2.2⟩
  | @step v w action _ hs hv =>
    cases action with
    | caller call =>
      refine ⟨hv.1.step (a := .caller call) ⟨hs.1,hs.2⟩,?_⟩
      obtain ⟨service,_,hw⟩ := Option.map_eq_some_iff.mp hs.2
      rw [←hw]
      exact hv.2
    | thread env raises =>
      refine ⟨hv.1.step (a := .thread env raises) ⟨rfl,hs.2⟩,?_⟩
      have hn : raises=none := Option.isNone_iff_eq_none.mp hs.1
      rw [←Option.some.inj hs.2,Exposed.thread]
      rcases exposedStep_cases (seen v.service env) v.service.batcher config raises with
        hx | ⟨call,error,hr,_,_⟩
      · rw [hx,hv.2]
        rfl
      · rw [hn] at hr
        cases hr

/-- In a run in which no call of the runner raises and no put comes too late
nothing is lost, and as long as the puts are in time the failures are
contained exactly while there are none. -/
theorem calm_contained (hest : ∀ prompt, 1≤config.estimateTokens prompt) :
    (∀ v, ((exposedMachine config).guarded (fun v action => calm v action=true)).Reaches v →
      Contained v) ∧
    ∀ v, ((exposedMachine config).guarded (fun v action => inTime v action=true)).Reaches v →
      (Contained v ↔ v.failures=[]) := by
  have hiff : ∀ v,
      ((exposedMachine config).guarded (fun v action => inTime v action=true)).Reaches v →
        (Contained v ↔ v.failures=[]) := by
    intro v h
    constructor
    · intro hc
      rcases reaches_service h with hr | ⟨_,e,he⟩
      · exact hr.1
      · exact absurd he (hc.running e)
    · intro hf
      rcases reaches_service h with hr | hr
      · refine ⟨?_,?_,?_,timely_nothingLost hr.2⟩
        · exact reaches_uncrashed hest (reaches_batcher hr.2.of_guarded)
        · exact fun call hm => absurd (hf ▸ hm) List.not_mem_nil
        · exact fun call hm => absurd (hf ▸ hm) List.not_mem_nil
      · exact absurd hf hr.1
  refine ⟨fun v h => ?_,hiff⟩
  obtain ⟨hr,hf⟩ := calm_unfailing h
  exact (hiff v hr).mpr hf

/-- The batcher as constructed, without a cache. -/
def newExposed : Exposed := {service := newService}

theorem newExposed_starts : (exposedMachine wordConfig).starts newExposed :=
  ⟨rfl,⟨none,rfl,nofun⟩,rfl⟩

/-- One request is served, then the batcher is shut down. -/
def calmRun : List Action :=
  [.caller (.submit (wordRequest "a")),.caller (.enqueue (wordRequest "a")),.thread {} none,
    .thread {} none,.thread {} none,.thread {} none,
    .thread {advance := fun _ => ⟨["x"],true,1⟩} none,.caller .shutdown,.caller .announce,
    .caller .putSentinel,.thread {} none,.thread {} none,.thread {} none,.thread {} none]

theorem calmRun_contained : ∃ v,
    ((exposedMachine wordConfig).guarded (fun v action => calm v action=true)).Reaches v ∧
      v.service.batcher.phase=.returned ∧
      v.service.ingress.accepted=[wordRequest "a"] ∧ Contained v := by
  obtain ⟨v,hr,hp,ha⟩ := Machine.Reaches.replayed (m := exposedMachine wordConfig)
    (P := fun v => v.service.batcher.phase=.returned ∧
      v.service.ingress.accepted=[wordRequest "a"]) calm
    (fun _ _ _ h => h) calmRun (.start newExposed_starts) (by decide +kernel)
  exact ⟨v,hr,hp,ha,(calm_contained wordConfig_estimates).1 v hr⟩

/-- The prefill of the only request raises. -/
def failingRun : List Action :=
  [.caller (.submit (wordRequest "a")),.caller (.enqueue (wordRequest "a")),.thread {} none,
    .thread {} none,.thread {} (some (.prefill [1],.runtimeError "out of memory"))]

/-- The thread has ended, and the request that was running is not settled. -/
theorem failingRun_escapes : ¬∀ config v,
    ((exposedMachine config).guarded (fun v action => inTime v action=true)).Reaches v →
      Contained v := by
  intro h
  obtain ⟨v,hr,hf,hs⟩ := Machine.Reaches.replayed (m := exposedMachine wordConfig)
    (P := fun v => .prefill [1]∈v.failures ∧ settledTimes 1 v.service.batcher.trace≠1) inTime
    (fun _ _ _ h => h) failingRun (.start newExposed_starts) (by decide +kernel)
  exact hs ((h wordConfig v hr).settled (.prefill [1]) hf 1 List.mem_cons_self)

end CudaForge.RunnerFailures
