import CudaForge.SchedulerLedger
import CudaForge.SubmissionQueue

/-!
# Shutting the continuous batcher down

The scheduler thread together with the callers of `submit`, `try_submit`
and `shutdown`, in every interleaving. A request whose put comes after the
thread has returned is accepted and never served: its submission read the
event before the shutdown set it. Without such a put nothing is lost.
-/

namespace CudaForge.ContinuousShutdown

open CacheBlocks CacheManager CacheInvariant ServingTypes ContinuousScheduler SchedulerEffects
open SchedulerLedger SubmissionQueue TransitionRuns

variable {config : BatcherConfig} {env : Env} {s t : Batcher}

/-- The batcher with its callers. -/
structure Service where
  ingress : Ingress := {}
  batcher : Batcher

/-- A step of a caller or of the scheduler thread. -/
inductive Action where
  | caller (call : Call)
  | thread (env : Env)

/-- The thread's next step reads the queue. -/
def readsQueue (config : BatcherConfig) (s : Batcher) : Bool :=
  match s.phase with
  | .admitting admitted =>
    decide (s.running.length+admitted.length<config.maxBatch) && s.deferred.isNone
  | _ => false

/-- What a read of a queue gives. -/
def frontOf : List (Option Request) → QueueRead
  | [] => .empty
  | none::_ => .sentinel
  | some request::_ => .request request

/-- The environment of the thread, with the queue as it is. -/
def seen (v : Service) (env : Env) : Env :=
  {env with read := frontOf v.ingress.queue, queueEmpty := v.ingress.queue.isEmpty}

/-- What a step does, if it can be taken now. -/
def Service.step (config : BatcherConfig) (v : Service) : Action → Option Service
  | .caller call =>
    (v.ingress.call config.queueCapacity call).map (fun ingress => {v with ingress := ingress})
  | .thread env =>
    let t := schedulerStep config (seen v env) v.batcher
    some {
      ingress := {v.ingress with
        queue := if readsQueue config v.batcher then v.ingress.queue.tail else v.ingress.queue
        stopping := v.ingress.stopping || t.stopping}
      batcher := t}

/-- The batcher and its callers, from construction on. -/
def serviceMachine (config : BatcherConfig) : Machine Service Action where
  starts v := v.ingress={} ∧ Fresh v.batcher
  steps v action w := v.step config action=some w

/-- Once the thread has returned, every accepted request was settled, once,
and none is left behind. -/
def NothingLost (v : Service) : Prop :=
  v.batcher.phase=.returned →
    ((settledOf v.batcher.trace).map unstamped).Perm (v.ingress.accepted.map unstamped) ∧
      requestsIn v.ingress.queue=[] ∧ v.batcher.deferred=none

/-- No request is put after the thread has returned. -/
def timely (v : Service) : Action → Bool
  | .caller (.enqueue _) => decide (v.batcher.phase≠.returned)
  | _ => true

/-- Where the slot may be full and the running set empty. -/
def SlotServed (s : Batcher) : Prop :=
  match s.phase with
  | .admitting admitted => admitted≠[] → s.running≠[]
  | .closing admitted => s.deferred=none ∧ (admitted≠[] → s.running≠[])
  | .prefilling _ => s.deferred≠none → s.running≠[]
  | .testing => s.deferred≠none → s.running≠[]
  | .returned => s.deferred=none ∧ s.running=[]
  | _ => True

/-- A deferred request always finds the scheduler with something running, so
the thread does not return on it. -/
theorem SlotServed.step (h : SlotServed s) (he : StepEffect config env s t) : SlotServed t := by
  unfold SlotServed at h
  cases he with
  | @full admitted hp hm =>
    rw [hp] at h
    intro _ hn
    by_cases ha : admitted=[]
    · rw [hn,ha] at hm
      exact absurd config.maxBatch_pos (Nat.not_lt.mpr hm)
    · exact h ha hn
  | emptied _ _ hd _ => exact fun hn => absurd hd hn
  | sentinel hp _ hd _ =>
    rw [hp] at h
    exact ⟨hd,h⟩
  | @expired admitted request u hp _ hd hh _ =>
    rw [hp] at h
    cases hh with
    | deferred _ => exact h
    | read _ _ _ => exact h
  | @offered admitted request offer u v hp _ hh _ ho =>
    rw [hp] at h
    have hu : u.running=s.running := by
      cases hh with
      | deferred _ => rfl
      | read _ _ _ => rfl
    have hnew : ∀ (rows : List (Request×SequenceState)) row, rows++[row]≠[] := fun _ _ =>
      List.append_ne_nil_of_right_ne_nil _ (List.cons_ne_nil _ _)
    cases ho with
    | started => exact fun _ => hnew _ _
    | rejected _ hr ha _ => exact fun hn => absurd ha hn
    | deferred hr =>
      intro _
      have hr' : u.running≠[] := hr.elim id (fun ha => hu ▸ h ha)
      exact hr'
  | closed hp =>
    rw [hp] at h
    exact fun hn => absurd h.1 hn
  | prefilledNothing hp =>
    rw [hp] at h
    exact h
  | prefilled hp _ =>
    rw [hp] at h
    intro hn
    exact fun he => h hn (List.map_eq_nil_iff.mp he)
  | returned hp hr _ _ =>
    rw [hp] at h
    exact ⟨by_contra (fun hn => h hn hr),hr⟩
  | idled _ _ _ => exact fun hn => absurd rfl hn
  | busy _ _ => trivial
  | crashed _ _ _ => trivial
  | starved _ _ _ => exact fun hn => absurd rfl hn
  | decoded _ _ _ => exact fun hn => absurd rfl hn
  | halted _ => exact h

/-- The request a step takes off the queue, stamped. -/
def taken (config : BatcherConfig) (s : Batcher) (env : Env) : List Request :=
  if readsQueue config s then
    match env.read with
    | .request read => [{read with dequeuedAt := some env.now}]
    | _ => []
  else []

theorem taken_of_reads {admitted : List SequenceState} (hp : s.phase=.admitting admitted)
    (hm : s.running.length+admitted.length<config.maxBatch) (hd : s.deferred=none) :
    taken config s env=match env.read with
      | .request read => [{read with dequeuedAt := some env.now}]
      | _ => [] := by
  have hr : readsQueue config s=true := by
    simp only [readsQueue,hp,hm,hd,decide_true,Option.isNone_none,Bool.and_self]
  rw [taken,if_pos hr]

theorem taken_nil (h : readsQueue config s=false) : taken config s env=[] := by
  rw [taken,h,if_neg Bool.false_ne_true]

/-- Giving rows back dequeues nothing. -/
theorem departed_dequeues (env : Env) (kind : Settlement)
    (count : ContinuousStats → ContinuousStats) (leaves : SequenceState → Bool) (s : Batcher) :
    dequeuedOf (departed env kind count leaves s).trace=dequeuedOf s.trace := by
  have ht : (departed env kind count leaves s).trace=
      s.trace++(s.running.filter (fun row => leaves row.2)).flatMap (settleEvents kind) := rfl
  rw [ht,dequeuedOf_append,(settleEvents_ledger kind _).1,List.append_nil]

theorem reserved_dequeues {u : Batcher} (hr : ReserveEffect env s u) :
    dequeuedOf u.trace=dequeuedOf s.trace := by
  cases hr with
  | unbounded _ => rfl
  | @paid cache left answers _ _ =>
    refine (departed_dequeues env _ _ _ (answered answers left s)).trans ?_
    have ht : (answered answers left s).trace=s.trace++extendEvents answers := rfl
    rw [ht,dequeuedOf_append,(extendEvents_ledger answers).1,List.append_nil]

/-- Offering a request dequeues nothing. -/
theorem offer_dequeues {request : Request} {admitted : List SequenceState}
    {offer : Bool×List SequenceState}
    (ho : OfferEffect config env request admitted s offer t) :
    dequeuedOf t.trace=dequeuedOf s.trace := by
  cases ho with
  | started =>
    have ht := dequeuedOf_append
      (evicted env (offerVictims config s request) (asked config request s)).trace
      [.entered request s.nextId]
    refine ht.trans ((List.append_nil _).trans ?_)
    exact departed_dequeues env _ _ _ (asked config request s)
  | rejected reason _ _ _ =>
    exact (dequeuedOf_append s.trace [.settled (.rejected reason) request none]).trans
      (List.append_nil _)
  | deferred _ => exact (dequeuedOf_append s.trace [.deferred request]).trans (List.append_nil _)

/-- A step dequeues what it takes off the queue. -/
theorem step_dequeues (he : StepEffect config env s t) :
    dequeuedOf t.trace=dequeuedOf s.trace++taken config s env := by
  have hidle : ∀ {phase}, s.phase=phase → (∀ admitted, phase≠.admitting admitted) →
      dequeuedOf s.trace=dequeuedOf s.trace++taken config s env := by
    intro phase hp hn
    have hr : readsQueue config s=false := by
      unfold readsQueue
      rw [hp]
      cases phase with
      | admitting admitted => exact absurd rfl (hn admitted)
      | _ => rfl
    rw [taken_nil hr,List.append_nil]
  cases he with
  | @full admitted hp hm =>
    have hr : readsQueue config s=false := by
      simp only [readsQueue,hp,Nat.not_lt.mpr hm,decide_false,Bool.false_and]
    rw [taken_nil hr,List.append_nil]
  | emptied hp hm hd hr => rw [taken_of_reads hp hm hd,hr,List.append_nil]
  | sentinel hp hm hd hr => rw [taken_of_reads hp hm hd,hr,List.append_nil]
  | @expired admitted request u hp hm hd hh _ =>
    cases hh with
    | deferred hs =>
      exact absurd (hs.symm.trans hd) (by simp only [reduceCtorEq,not_false_eq_true])
    | read _ hr hs =>
      rw [taken_of_reads hp hm hd,hr,hs,List.append_assoc,dequeuedOf_append]
      rfl
  | @offered admitted request offer u v hp hm hh _ ho =>
    refine (offer_dequeues ho).trans ?_
    cases hh with
    | deferred hs =>
      have hr : readsQueue config s=false := by
        simp only [readsQueue,hp,hs,Option.isNone_some,Bool.and_false]
      rw [taken_nil hr,List.append_nil]
    | read hd hr hs =>
      rw [taken_of_reads hp hm hd,hr,hs]
      exact dequeuedOf_append s.trace [.dequeued _]
  | closed hp => exact hidle hp (by intro admitted hs; cases hs)
  | prefilledNothing hp => exact hidle hp (by intro admitted hs; cases hs)
  | @prefilled admitted hp _ =>
    refine Eq.trans ?_ (hidle hp (by intro admitted hs; cases hs))
    exact (dequeuedOf_append s.trace [.prefill _ _]).trans (List.append_nil _)
  | returned hp _ _ _ => exact hidle hp (by intro admitted hs; cases hs)
  | idled hp _ _ => exact hidle hp (by intro admitted hs; cases hs)
  | busy hp _ => exact hidle hp (by intro admitted hs; cases hs)
  | @crashed e cache left answers hp _ _ =>
    refine Eq.trans ?_ (hidle hp (by intro admitted hs; cases hs))
    rw [answered,dequeuedOf_append,(extendEvents_ledger answers).1,List.append_nil]
  | starved hp hr _ =>
    exact (reserved_dequeues hr).trans (hidle hp (by intro admitted hs; cases hs))
  | @decoded u hp hr _ =>
    refine Eq.trans ?_ ((reserved_dequeues hr).trans (hidle hp (by intro admitted hs; cases hs)))
    refine (departed_dequeues env .completed addCompletion _ (decodedBy config env u)).trans ?_
    exact (dequeuedOf_append u.trace [.decode _ _]).trans (List.append_nil _)
  | halted hp =>
    rcases hp with hp | ⟨e,hp⟩
    · exact hidle hp (by intro admitted hs; cases hs)
    · exact hidle hp (by intro admitted hs; cases hs)

/-- What holds in every interleaving in which no put comes too late. -/
structure Accounted (v : Service) : Prop where
  cache : CacheOk v.batcher
  ledger : Balanced [] v.batcher
  slot : SlotServed v.batcher
  /-- The queue is first in, first out. -/
  order : v.ingress.accepted.map unstamped=
    (dequeuedOf v.batcher.trace).map unstamped++(requestsIn v.ingress.queue).map unstamped
  /-- The thread returned on an empty queue, and nothing came after. -/
  empty : v.batcher.phase=.returned → requestsIn v.ingress.queue=[]

/-- A caller's step keeps the account. -/
theorem Accounted.caller {v : Service} {call : Call} {ingress : Ingress} (h : Accounted v)
    (hg : timely v (.caller call)=true)
    (hc : v.ingress.call config.queueCapacity call=some ingress) :
    Accounted {v with ingress := ingress} := by
  rcases call_accepts hc with ⟨ha,hr⟩ | ⟨request,rfl,ha,hr⟩
  · refine ⟨h.cache,h.ledger,h.slot,?_,?_⟩
    · rw [ha,hr]
      exact h.order
    · rw [hr]
      exact h.empty
  · refine ⟨h.cache,h.ledger,h.slot,?_,fun hp => absurd hp (of_decide_eq_true hg)⟩
    rw [ha,hr,List.map_append,List.map_append,h.order,List.append_assoc]

/-- What the thread takes off the queue the queue loses. -/
theorem taken_front (config : BatcherConfig) (v : Service) (env : Env) :
    (requestsIn v.ingress.queue).map unstamped=
      (taken config v.batcher (seen v env)).map unstamped++
        (requestsIn (if readsQueue config v.batcher then v.ingress.queue.tail
          else v.ingress.queue)).map unstamped := by
  cases hr : readsQueue config v.batcher with
  | false =>
    rw [taken_nil hr]
    rfl
  | true =>
    rw [taken,if_pos hr,if_pos rfl,seen]
    match v.ingress.queue with
    | [] => rfl
    | none::_ => rfl
    | some request::_ => rfl

/-- The thread returns when it finds the queue empty. -/
theorem returns_empty (he : StepEffect config env s t) (ht : t.phase=.returned) :
    env.queueEmpty=true ∨ s.phase=.returned := by
  cases he with
  | returned _ _ _ hq => exact Or.inl hq
  | halted _ => exact Or.inr ht
  | @offered admitted request offer u v _ _ _ _ _ =>
    exact absurd ht (by cases offer.1 <;> exact nofun)
  | _ => exact nomatch ht

/-- A step of the thread keeps the account. -/
theorem Accounted.thread {v w : Service} (h : Accounted v) {env : Env}
    (hs : v.step config (.thread env)=some w) : Accounted w := by
  obtain ⟨he,hk⟩ := schedulerStep_effect h.cache config (seen v env)
  rw [←Option.some.inj hs]
  generalize schedulerStep config (seen v env) v.batcher=t at he hk
  refine ⟨hk,h.ledger.step he,h.slot.step he,?_,?_⟩
  · rw [step_dequeues he,List.map_append,List.append_assoc,←taken_front]
    exact h.order
  · intro ht
    have hq : requestsIn v.ingress.queue=[] := by
      rcases returns_empty he ht with hq | hp
      · rw [List.isEmpty_iff.mp hq]
        rfl
      · exact h.empty hp
    have hf := taken_front config v (seen v env)
    rw [hq,List.map_nil,List.nil_eq,List.append_eq_nil_iff,List.map_eq_nil_iff] at hf
    exact List.map_eq_nil_iff.mp hf.2

/-- In every interleaving in which no request is put after the thread has
returned, nothing is lost. -/
theorem timely_nothingLost {v : Service}
    (h : ((serviceMachine config).guarded (fun v action => timely v action=true)).Reaches v) :
    NothingLost v := by
  have hi : Accounted v := by
    refine h.invariant ?_ ?_
    · intro v hv
      obtain ⟨hi,hf⟩ := hv
      have hk := fresh_cacheOk hf
      obtain ⟨ingress,batcher⟩ := v
      obtain ⟨cache,hb,_⟩ := hf
      have hi' : ingress={} := hi
      have hb' : batcher={cache := cache} := hb
      subst hi' hb'
      exact ⟨hk,⟨List.Perm.refl _,List.Sublist.refl _,rfl⟩,fun hn => absurd rfl hn,rfl,nofun⟩
    · intro v action w hv hs
      cases action with
      | caller call =>
        obtain ⟨ingress,hc,hw⟩ := Option.map_eq_some_iff.mp hs.2
        exact hw ▸ hv.caller hs.1 hc
      | thread env => exact hv.thread hs.2
  intro hp
  have hslot := hi.slot
  have hempty := hi.empty hp
  have horder := hi.order
  have hplaces := hi.ledger.places
  rw [SlotServed,hp] at hslot
  rw [hempty,List.map_nil,List.append_nil] at horder
  rw [hslot.1,hslot.2] at hplaces
  exact ⟨(horder ▸ hplaces.map unstamped).symm,hempty,hslot.1⟩

/-- The service as constructed, without a cache. -/
def newService : Service := {batcher := {}}

theorem newService_starts : (serviceMachine wordConfig).starts newService :=
  ⟨rfl,none,rfl,nofun⟩

/-- A shutdown with nothing to serve, up to the thread's return. -/
def emptyShutdown : List Action :=
  [.caller .shutdown,.caller .announce,.caller .putSentinel,.thread {},.thread {},.thread {},
    .thread {}]

/-- A submission that reads the event first and puts last. -/
def lateSubmission : List Action :=
  .caller (.submit (wordRequest "a"))::emptyShutdown++[.caller (.enqueue (wordRequest "a"))]

/-- A request put behind the sentinel, but before the thread returns, is still
served: it is found by the emptiness test. -/
def behindSentinel : List Action :=
  [.caller (.submit (wordRequest "a")),.caller .shutdown,.caller .announce,.caller .putSentinel,
    .thread {},.thread {},.thread {},.caller (.enqueue (wordRequest "a")),.thread {},.thread {},
    .thread {},.thread {},.thread {},.thread {advance := fun _ => ⟨["x"],true,1⟩},.thread {},
    .thread {},.thread {}]

theorem behindSentinel_served :
    ∃ v, ((serviceMachine wordConfig).guarded (fun v action => timely v action=true)).Reaches v ∧
      v.batcher.phase=.returned ∧ v.ingress.accepted=[wordRequest "a"] ∧ NothingLost v := by
  obtain ⟨v,hr,hp,ha⟩ := Machine.Reaches.replayed (m := serviceMachine wordConfig)
    (P := fun v => v.batcher.phase=.returned ∧ v.ingress.accepted=[wordRequest "a"]) timely
    (fun _ _ _ h => h) behindSentinel (.start newService_starts) (by decide +kernel)
  exact ⟨v,hr,hp,ha,timely_nothingLost hr⟩

/-- The late submission returns true, and its request stays in the queue of a
thread that has returned. -/
theorem lateSubmission_lost :
    ¬∀ config v, (serviceMachine config).Reaches v → NothingLost v := by
  intro h
  obtain ⟨v,hr,hp,hq⟩ := Machine.Reaches.replayed (m := serviceMachine wordConfig)
    (P := fun v => v.batcher.phase=.returned ∧ requestsIn v.ingress.queue≠[]) (fun _ _ => true)
    (fun _ _ _ h => h) lateSubmission (.start newService_starts) (by decide +kernel)
  exact hq (h wordConfig v hr.of_guarded hp).2.1

end CudaForge.ContinuousShutdown
