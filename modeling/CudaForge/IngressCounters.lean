import CudaForge.BinaryFloats
import CudaForge.DynamicShutdown
import CudaForge.Metering
import CudaForge.NativeShutdown
import CudaForge.ServingMetrics

/-!
# The ingress counters of both dynamic batchers

What `submit`, `try_submit` and the batcher's thread record, in Python and in
C++. A request is received when it is submitted, and then rejected, dropped as
expired, or counted in the batch it is handed over in. The Python batcher
departs from this in three places: a submission that finds the shutdown event
set is rejected and never received, one whose put raises is received and
nothing else, and so are the requests that the thread holds when a wait that
is too long kills it.
-/

namespace CudaForge.IngressCounters

open TransitionRuns Metering ServingMetrics

/-! ## The Python batcher -/

section Python

open BinaryFloats ServingTypes SubmissionQueue DynamicBatching DynamicShutdown

/-- The batcher, and how often it was called; the code does not count calls. -/
structure Intake where
  batcher : DynamicBatcher := {}
  /-- Calls of `submit` and `try_submit`. -/
  calls : ℕ := 0
  /-- Calls that read the event as set. -/
  turnedAway : ℕ := 0
  /-- Calls whose put raised. -/
  raised : ℕ := 0
  /-- Requests that the thread held when it died. -/
  lost : ℕ := 0

/-- A step of a caller or of the batcher's thread. -/
inductive IntakeAction where
  | caller (call : SubmissionQueue.Call)
  /-- A put raises, with this much left of its timeout. -/
  | misput (request : ServingTypes.Request) (timeout : FloatNumber binary64)
  /-- The put of a shutdown raises. -/
  | misclose (timeout : FloatNumber binary64)
  /-- The thread goes on; a callback that it calls may raise. -/
  | thread (clock : Clock) (raises : Bool)

/-- A put raises: its timeout is negative, or the queue is full and what is
left of the timeout is longer than a wait takes. -/
def Misput (capacity : ℕ) (ingress : Ingress) (timeout : FloatNumber binary64) : Prop :=
  timeout<.finite 0 ∨ capacity ≤ ingress.queue.length ∧ .finite timeoutMax<timeout

instance (capacity : ℕ) (ingress : Ingress) (timeout : FloatNumber binary64) :
    Decidable (Misput capacity ingress timeout) := inferInstanceAs (Decidable (_ ∨ _))

/-- The thread, with room in its batch and nothing queued, is about to wait for
longer than a wait takes. -/
def overruns (config : DynamicConfig) (clock : Clock) (b : DynamicBatcher) : Bool :=
  match b.stage with
  | .filling requests deadline =>
    decide (requests.length < config.maxBatchSize) && b.ingress.queue.isEmpty &&
      decide (timeoutMax < config.rounded (deadline-clock.remainingAt))
  | _ => false

/-- The thread dies, and with it what it holds. -/
def Intake.die (i : Intake) : Intake :=
  {i with
    batcher := {i.batcher with stage := .returned}
    lost := i.lost+(inHand i.batcher.stage).length}

/-- A step begins a submission. -/
def begins : SubmissionQueue.Call → ℕ
  | .submit _ => 1
  | _ => 0

/-- What a step does, if it can be taken now. -/
def Intake.step (config : DynamicConfig) (i : Intake) : IntakeAction → Option Intake
  | .caller call => (i.batcher.step config (.caller call)).map fun batcher =>
      { i with
        batcher := batcher
        calls := i.calls+begins call
        turnedAway := i.turnedAway+(if i.batcher.ingress.stopping then begins call else 0) }
  | .misput request timeout =>
    if Misput config.queueCapacity i.batcher.ingress timeout ∧
        request∈i.batcher.ingress.submitting then
      some { i with
        batcher := { i.batcher with ingress := { i.batcher.ingress with
          submitting := i.batcher.ingress.submitting.erase request } }
        raised := i.raised+1 }
    else none
  | .misclose timeout =>
    if Misput config.queueCapacity i.batcher.ingress timeout ∧
        0 < i.batcher.ingress.announcing then
      some { i with batcher := { i.batcher with ingress := { i.batcher.ingress with
        announcing := i.batcher.ingress.announcing-1 } } }
    else none
  | .thread clock _ =>
    if overruns config clock i.batcher then some i.die
    else (i.batcher.step config (.thread clock)).map fun batcher => {i with batcher := batcher}

/-- What a caller records: a reception behind the event, or a rejection in
front of it, and a rejection when the queue is full. -/
def callerOwes (stopping : Bool) : SubmissionQueue.Call → List Recording
  | .submit _ => if stopping then [.rejected] else [.received]
  | .refuse _ => [.rejected]
  | _ => []

/-- What the thread records when it drops a request, and when it hands a batch
over. -/
def threadOwes (onExpired raises : Bool) (before after : DynamicBatcher) : List Recording :=
  (after.dropped.drop before.dropped.length).flatMap (fun _ =>
    .expired::(if onExpired&&raises then [.failed] else []))++
  (after.handled.drop before.handled.length).flatMap (fun batch =>
    .batch batch.requests.length (decide (batch.trigger=.timeout))::
      (if raises then [.failed] else []))

/-- The recordings of the Python batcher. -/
def intakeMeter (onExpired : Bool) : Meter Intake IntakeAction MetricsRegistry Recording where
  zero := {}
  record := MetricsRegistry.record
  owes before action after :=
    match action with
    | .caller call => callerOwes before.batcher.ingress.stopping call
    | .misput _ _ => []
    | .misclose _ => []
    | .thread _ raises => threadOwes onExpired raises before.batcher after.batcher

/-- The Python batcher with its metrics. -/
def meteredIntake (config : DynamicConfig) (onExpired : Bool) :
    Machine (Metered Intake MetricsRegistry Recording) (MeterStep IntakeAction) :=
  metered (·={}) (Intake.step config) (intakeMeter onExpired)

/-- What a step of the thread does. -/
inductive Collected (clock : Clock) (b : DynamicBatcher) : DynamicBatcher → Prop
  /-- It drops the front request. -/
  | drops {request : ServingTypes.Request} {rest : List (Option ServingTypes.Request)}
      (hq : b.ingress.queue=some request::rest) :
      Collected clock b {popped rest b with dropped := b.dropped++[stamped clock request]}
  /-- It takes the front request into the batch. -/
  | keeps {request : ServingTypes.Request} {rest : List (Option ServingTypes.Request)}
      {stage : Stage} (hq : b.ingress.queue=some request::rest)
      (hk : inHand stage=inHand b.stage++[stamped clock request]) :
      Collected clock b {popped rest b with stage := stage}
  /-- It goes on with the batch it has, and may take or put a sentinel. -/
  | moves {queue : List (Option ServingTypes.Request)} {stage : Stage}
      (hq : requestsIn queue=requestsIn b.ingress.queue) (hk : inHand stage=inHand b.stage) :
      Collected clock b {popped queue b with stage := stage}
  /-- It hands a batch over. -/
  | hands {batch : DynamicBatching.Batch} (hs : b.stage=.handling batch) :
      Collected clock b {b with stage := .waiting, handled := b.handled++[batch]}

variable {config : DynamicConfig} {clock : Clock} {b c : DynamicBatcher}

/-- The front request is dropped or kept. -/
theorem dropOr_collected {request : ServingTypes.Request}
    {rest : List (Option ServingTypes.Request)} {kept : Stage}
    (hq : b.ingress.queue=some request::rest)
    (hk : inHand kept=inHand b.stage++[stamped clock request]) :
    Collected clock b (dropOr clock request kept (popped rest b)) := by
  rw [dropOr]
  split
  · exact .drops hq
  · exact .keeps hq hk

/-- The thread's steps. -/
theorem collectorStep_collected (h : collectorStep config clock b=some c) :
    Collected clock b c := by
  unfold collectorStep at h
  cases hst : b.stage with
  | waiting =>
    simp only [hst,waitStep] at h
    match hq : b.ingress.queue with
    | [] =>
      rw [hq] at h
      cases h
    | none::rest =>
      rw [hq] at h
      rw [←Option.some.inj h]
      exact .moves (by rw [hq]; rfl) (by rw [hst]; rfl)
    | some request::rest =>
      rw [hq] at h
      rw [←Option.some.inj h]
      exact dropOr_collected hq (by rw [hst]; rfl)
  | filling requests deadline =>
    simp only [hst,Option.some.injEq] at h
    have hclose (trigger : DynamicBatching.BatchTrigger) :
        Collected clock b {b with stage := .handling ⟨requests,trigger⟩} :=
      .moves rfl (by rw [hst]; rfl)
    rw [fillStep] at h
    rw [←h]
    split
    · split
      · exact hclose _
      · match hq : b.ingress.queue with
        | [] => exact hclose _
        | none::rest => exact .moves (by rw [hq]; rfl) (by rw [hst]; rfl)
        | some request::rest => exact dropOr_collected hq (by rw [hst]; rfl)
    · exact hclose _
  | draining requests =>
    simp only [hst,Option.some.injEq] at h
    have hclose : Collected clock b {b with stage := .reposting requests} :=
      .moves rfl (by rw [hst]; rfl)
    rw [drainStep] at h
    rw [←h]
    split
    · match hq : b.ingress.queue with
      | [] => exact hclose
      | none::rest => exact .moves (by rw [hq]; rfl) (by rw [hst]; rfl)
      | some request::rest => exact dropOr_collected hq (by rw [hst]; rfl)
    · exact hclose
  | reposting requests =>
    simp only [hst,Option.some.injEq] at h
    rw [repostStep] at h
    rw [←h]
    split
    · refine .moves ?_ (by rw [hst]; rfl)
      rw [requestsIn_append]
      exact List.append_nil _
    · exact .moves rfl (by rw [hst]; rfl)
  | handling batch =>
    simp only [hst,Option.some.injEq] at h
    rw [←h]
    exact .hands hst
  | returned =>
    simp only [hst,reduceCtorEq] at h

/-- A wait that kills the thread is for the next request of a batch. -/
theorem overruns_filling (h : overruns config clock b=true) :
    ∃ requests deadline, b.stage=.filling requests deadline := by
  unfold overruns at h
  split at h
  · next requests deadline hs => exact ⟨requests,deadline,hs⟩
  · exact absurd h nofun

/-- A step of the thread: it dies while it fills a batch, or does what the
batcher's thread does. -/
theorem thread_cases {raises : Bool} {i j : Intake}
    (h : i.step config (.thread clock raises)=some j) :
    (j=i.die ∧ ∃ requests deadline, i.batcher.stage=.filling requests deadline) ∨
      ∃ batcher, collectorStep config clock i.batcher=some batcher ∧
        j={i with batcher := batcher} := by
  unfold Intake.step at h
  simp only at h
  split at h
  · next ho => exact .inl ⟨(Option.some.inj h).symm,overruns_filling ho⟩
  · obtain ⟨batcher,hb,rfl⟩ := Option.map_eq_some_iff.mp h
    exact .inr ⟨batcher,hb,rfl⟩

/-- A thread that dies records nothing. -/
theorem threadOwes_die (onExpired raises : Bool) (i : Intake) :
    threadOwes onExpired raises i.batcher i.die.batcher=[] := by
  rw [threadOwes,Intake.die,List.drop_length,List.drop_length]
  rfl

/-- Requests that were received and are still on their way through the
batcher, with the calls that left the account uneven. -/
def Intake.due (i : Intake) : ℤ :=
  i.batcher.ingress.submitting.length+(requestsIn i.batcher.ingress.queue).length+
    (inHand i.batcher.stage).length+i.raised+i.lost-i.turnedAway

theorem sum_singleton_map (recording : Recording) :
    ([recording].map unsettledBy).sum=unsettledBy recording := by
  rw [List.map_singleton,List.sum_singleton]

/-- A request that leaves the submissions. -/
theorem length_submitting {requests : List ServingTypes.Request} {request : ServingTypes.Request}
    (h : request∈requests) : (requests.length : ℤ)=(requests.erase request).length+1 := by
  have hl := List.length_erase_of_mem h
  have hp := List.length_pos_of_mem h
  omega

/-- A caller's step moves what is due by what it leaves to record. -/
theorem due_caller {call : SubmissionQueue.Call} {i j : Intake}
    (h : i.step config (.caller call)=some j) :
    j.due=i.due+((callerOwes i.batcher.ingress.stopping call).map unsettledBy).sum := by
  obtain ⟨batcher,hb,rfl⟩ := Option.map_eq_some_iff.mp h
  obtain ⟨ingress,hi,rfl⟩ := Option.map_eq_some_iff.mp hb
  cases call with
  | submit request =>
    rw [←Option.some.inj hi]
    cases hs : i.batcher.ingress.stopping with
    | true =>
      simp only [Intake.due,callerOwes,begins,if_true,sum_singleton_map,unsettledBy]
      push_cast
      ring
    | false =>
      simp only [Intake.due,callerOwes,begins,Bool.false_eq_true,if_false,sum_singleton_map,
        unsettledBy,List.length_append,List.length_singleton]
      push_cast
      ring
  | enqueue request =>
    obtain ⟨⟨hm,_⟩,hj⟩ := Option.ite_none_right_eq_some.mp hi
    have hl := length_submitting hm
    have hn : begins (.enqueue request)=0 := rfl
    have ho : requestsIn [some request]=[request] := rfl
    rw [←Option.some.inj hj]
    simp only [Intake.due,callerOwes,hn,ite_self,Nat.add_zero,requestsIn_append,ho,
      List.length_append,List.length_singleton,List.map_nil,List.sum_nil]
    push_cast
    omega
  | refuse request =>
    obtain ⟨⟨hm,_⟩,hj⟩ := Option.ite_none_right_eq_some.mp hi
    have hl := length_submitting hm
    have hn : begins (.refuse request)=0 := rfl
    rw [←Option.some.inj hj]
    simp only [Intake.due,callerOwes,hn,ite_self,Nat.add_zero,sum_singleton_map,unsettledBy]
    omega
  | shutdown =>
    rw [←Option.some.inj hi]
    split <;> simp only [Intake.due,callerOwes,begins,Nat.add_zero,List.map_nil,List.sum_nil,
      Int.add_zero]
  | announce =>
    obtain ⟨_,hj⟩ := Option.ite_none_right_eq_some.mp hi
    rw [←Option.some.inj hj]
    simp only [Intake.due,callerOwes,begins,ite_self,Nat.add_zero,List.map_nil,List.sum_nil,
      Int.add_zero]
  | putSentinel =>
    obtain ⟨_,hj⟩ := Option.ite_none_right_eq_some.mp hi
    have ho : requestsIn [none]=[] := rfl
    rw [←Option.some.inj hj]
    simp only [Intake.due,callerOwes,begins,ite_self,Nat.add_zero,requestsIn_append,ho,
      List.append_nil,List.map_nil,List.sum_nil,Int.add_zero]
  | giveUp =>
    obtain ⟨_,hj⟩ := Option.ite_none_right_eq_some.mp hi
    rw [←Option.some.inj hj]
    simp only [Intake.due,callerOwes,begins,ite_self,Nat.add_zero,List.map_nil,List.sum_nil,
      Int.add_zero]

/-- A step of the thread moves what is due by what it leaves to record. -/
theorem due_thread (onExpired raises : Bool) {i : Intake} (h : Collected clock i.batcher c) :
    ({i with batcher := c} : Intake).due=
      i.due+((threadOwes onExpired raises i.batcher c).map unsettledBy).sum := by
  have hfailed (p : Bool) : ((if p then [Recording.failed] else []).map unsettledBy).sum=0 := by
    cases p <;> rfl
  cases h with
  | @drops request rest hq =>
    have hr : (requestsIn i.batcher.ingress.queue).length=(requestsIn rest).length+1 := by
      rw [hq]
      rfl
    simp only [Intake.due,threadOwes,popped,List.drop_left,List.drop_length,List.flatMap_nil,
      List.append_nil,List.flatMap_singleton,List.map_cons,List.sum_cons,hfailed,unsettledBy,hr]
    push_cast
    ring
  | @keeps request rest stage hq hk =>
    have hr : (requestsIn i.batcher.ingress.queue).length=(requestsIn rest).length+1 := by
      rw [hq]
      rfl
    simp only [Intake.due,threadOwes,popped,List.drop_length,List.flatMap_nil,List.append_nil,
      List.map_nil,List.sum_nil,hk,List.length_append,List.length_singleton,hr]
    push_cast
    ring
  | moves hq hk =>
    simp only [Intake.due,threadOwes,popped,List.drop_length,List.flatMap_nil,List.append_nil,
      List.map_nil,List.sum_nil,hk,hq,Int.add_zero]
  | @hands batch hs =>
    have hin : inHand (.handling batch)=batch.requests := rfl
    have hout : inHand .waiting=[] := rfl
    simp only [Intake.due,threadOwes,List.drop_left,List.drop_length,List.flatMap_nil,
      List.nil_append,List.flatMap_singleton,List.map_cons,List.sum_cons,hfailed,unsettledBy,hs,
      hin,hout,List.length_nil]
    push_cast
    ring

/-- A step moves what is due by what it leaves to record. -/
theorem due_step {onExpired : Bool} {action : IntakeAction} {i j : Intake}
    (h : i.step config action=some j) :
    j.due=i.due+(((intakeMeter onExpired).owes i action j).map unsettledBy).sum := by
  cases action with
  | caller call => exact due_caller h
  | misput request timeout =>
    obtain ⟨⟨_,hm⟩,hj⟩ := Option.ite_none_right_eq_some.mp h
    have hl := length_submitting hm
    rw [←Option.some.inj hj]
    simp only [Intake.due,intakeMeter,List.map_nil,List.sum_nil]
    push_cast
    omega
  | misclose timeout =>
    obtain ⟨_,hj⟩ := Option.ite_none_right_eq_some.mp h
    rw [←Option.some.inj hj]
    exact (add_zero _).symm
  | thread clock raises =>
    rcases thread_cases h with ⟨rfl,_⟩ | ⟨batcher,hb,rfl⟩
    · have hn : inHand .returned=[] := rfl
      simp only [intakeMeter,threadOwes_die]
      simp only [Intake.due,Intake.die,hn,List.length_nil,List.map_nil,List.sum_nil]
      push_cast
      ring
    · exact due_thread onExpired raises (collectorStep_collected hb)

/-- A failure that may have been recorded is not a reception. -/
theorem receivedBy_failed {p : Prop} [Decidable p] {recording : Recording}
    (h : recording∈if p then [Recording.failed] else []) : receivedBy recording=0 := by
  by_cases hp : p
  · rw [if_pos hp] at h
    rw [List.mem_singleton.mp h,receivedBy]
  · rw [if_neg hp] at h
    cases h

/-- The thread records no reception. -/
theorem received_threadOwes (onExpired raises : Bool) (before after : DynamicBatcher) :
    ((threadOwes onExpired raises before after).map receivedBy).sum=0 := by
  refine receivedBy_sum fun recording hr => ?_
  rcases List.mem_append.mp hr with hr | hr
  · obtain ⟨_,_,hr⟩ := List.mem_flatMap.mp hr
    rcases List.mem_cons.mp hr with rfl | hr
    · rfl
    · exact receivedBy_failed hr
  · obtain ⟨_,_,hr⟩ := List.mem_flatMap.mp hr
    rcases List.mem_cons.mp hr with rfl | hr
    · rfl
    · exact receivedBy_failed hr

/-- A reception is recorded for each submission but those the event turns
away. -/
theorem received_step {onExpired : Bool} {action : IntakeAction} {i j : Intake}
    (h : i.step config action=some j) : (j.calls : ℤ)-j.turnedAway=i.calls-i.turnedAway+
      (((intakeMeter onExpired).owes i action j).map receivedBy).sum := by
  cases action with
  | caller call =>
    obtain ⟨batcher,_,rfl⟩ := Option.map_eq_some_iff.mp h
    cases call with
    | submit request =>
      cases hs : i.batcher.ingress.stopping <;>
        simp only [intakeMeter,callerOwes,begins,hs,if_true,if_false,Bool.false_eq_true,
          List.map_singleton,List.sum_singleton,receivedBy] <;> push_cast <;> ring
    | refuse request =>
      simp only [intakeMeter,callerOwes,begins,ite_self,List.map_singleton,List.sum_singleton,
        receivedBy,Nat.add_zero,Int.add_zero]
    | _ =>
      simp only [intakeMeter,callerOwes,begins,ite_self,List.map_nil,List.sum_nil,Nat.add_zero,
        Int.add_zero]
  | misput request timeout =>
    obtain ⟨_,hj⟩ := Option.ite_none_right_eq_some.mp h
    rw [←Option.some.inj hj]
    exact (add_zero _).symm
  | misclose timeout =>
    obtain ⟨_,hj⟩ := Option.ite_none_right_eq_some.mp h
    rw [←Option.some.inj hj]
    exact (add_zero _).symm
  | thread clock raises =>
    rcases thread_cases h with ⟨rfl,_⟩ | ⟨batcher,_,rfl⟩ <;>
      simp only [intakeMeter,received_threadOwes,Int.add_zero,Intake.die]

/-- No call is in progress, the queue is empty, the thread holds no request
and every recording is made. -/
structure Intake.Quiescent (m : Metered Intake MetricsRegistry Recording) : Prop where
  submitting : m.state.batcher.ingress.submitting=[]
  closing : m.state.batcher.ingress.closing=0
  announcing : m.state.batcher.ingress.announcing=0
  queue : m.state.batcher.ingress.queue=[]
  inHand : inHand m.state.batcher.stage=[]
  owed : m.owed=[]

instance (m : Metered Intake MetricsRegistry Recording) : Decidable (Intake.Quiescent m) :=
  decidable_of_iff (m.state.batcher.ingress.submitting=[] ∧ m.state.batcher.ingress.closing=0 ∧
      m.state.batcher.ingress.announcing=0 ∧ m.state.batcher.ingress.queue=[] ∧
      inHand m.state.batcher.stage=[] ∧ m.owed=[])
    ⟨fun ⟨hs,hc,ha,hq,hi,ho⟩ => ⟨hs,hc,ha,hq,hi,ho⟩,
      fun h => ⟨h.submitting,h.closing,h.announcing,h.queue,h.inHand,h.owed⟩⟩

/-- At quiescence the calls that the event turned away, the ones that raised
and the requests lost with the thread are what is missing in the account. -/
theorem quiescent_account {onExpired : Bool} {m : Metered Intake MetricsRegistry Recording}
    (h : (meteredIntake config onExpired).Reaches m) (hq : Intake.Quiescent m) :
    unsettled m.counters=m.state.raised+m.state.lost-m.state.turnedAway ∧
      (m.counters.received : ℤ)=m.state.calls-m.state.turnedAway := by
  constructor
  · have ha := audit_settled unsettled unsettledBy Intake.due unsettled_record
      (by rintro _ rfl; rfl) (fun _ _ _ _ ht => due_step ht) h hq.owed
    have hr : requestsIn []=[] := rfl
    simp only [Intake.due,hq.submitting,hq.queue,hq.inHand,hr,List.length_nil,Nat.cast_zero,
      zero_add] at ha
    exact ha
  · exact audit_settled (fun metrics => (metrics.received : ℤ)) receivedBy
      (fun i => (i.calls : ℤ)-i.turnedAway) received_record (by rintro _ rfl; rfl)
      (fun _ _ _ _ ht => received_step ht) h hq.owed

end Python

/-! ## The C++ batcher -/

section Native

open ConcurrentQueue NativeBatcher NativeShutdown ThreadPools

/-- What a submission records once the queue decided. -/
def statusOwes (status : QueueStatus) : List Recording :=
  if status=.ok then [] else [.rejected]

/-- What the worker records for a dropped request, and for a batch before it
hands it over. -/
def outcomeOwes (setup : Setup) (e : Env) (closedByTimeout : Bool) : Outcome → List Recording
  | .dropped _ => .expired::(if setup.onExpired&&e.raises then [.failed] else [])
  | .delivered batch => [.batch batch.length closedByTimeout]

/-- What a step of the worker records. -/
def workOwes (setup : Setup) (e : Env) (before after : Batcher) : List Recording :=
  (after.log.drop before.log.length).flatMap (outcomeOwes setup e
    (match before.worker with
    | .collected _ trigger => decide (trigger=.timeout)
    | _ => false))++
  (if before.worker=.handling ∧ e.raises=true then [.failed] else [])

/-- The recordings of the C++ batcher. -/
def nativeMeter (setup : Setup) : Meter Batcher Action MetricsRegistry Recording where
  zero := {}
  record := MetricsRegistry.record
  owes before action after :=
    match action with
    | .submit _ => [.received]
    | .trySubmit _ => [.received]
    | .offer ticket =>
      match after.calls[ticket]? with
      | some (.decided status) => statusOwes status
      | _ => []
    | .work e => workOwes setup e before after
    | _ => []

/-- The C++ batcher with its metrics. -/
def meteredNative (setup : Setup) :
    Machine (Metered Batcher MetricsRegistry Recording) (MeterStep Action) :=
  metered (fun b => NativeBatcher.make setup=.ok b) (Batcher.step setup) (nativeMeter setup)

/-- A submission the queue has not decided. -/
def undecided : NativeBatcher.Call → ℕ
  | .pushing _ => 1
  | .trying _ => 1
  | .decided _ => 0
  | .returned _ => 0

/-- Requests that were received and are still on their way through the
batcher. -/
def nativeDue (b : Batcher) : ℤ :=
  b.guarded.buffer.length+(batchOf b.worker).length+weigh undecided b.calls

variable {setup : Setup} {b b' : Batcher}

/-- The queue's decision moves what is due by what it leaves to record. -/
theorem due_decide {entry : Entry} {ticket : ℕ} {call : NativeBatcher.Call} {answer : Answer Entry}
    (hc : b.calls[ticket]?=some call) (hu : undecided call=1)
    (ha : (∃ status≠.ok, answer=b.guarded.refuse status) ∨ answer=b.guarded.accept entry) :
    nativeDue (b.decide entry ticket answer)=nativeDue b+
      (((nativeMeter setup).owes b (.offer ticket) (b.decide entry ticket answer)).map
        unsettledBy).sum := by
  have hl := (List.getElem?_eq_some_iff.mp hc).1
  have hw (status : QueueStatus) :
      weigh undecided (b.calls.set ticket (.decided status))+1=weigh undecided b.calls := by
    have hset := weigh_set undecided (.decided status) hc
    rwa [hu] at hset
  have hget (status : QueueStatus) :
      (b.calls.set ticket (.decided status))[ticket]?=some (.decided status) :=
    List.getElem?_set_self hl
  rcases ha with ⟨status,hs,rfl⟩ | rfl
  · have hset := hw status
    simp only [nativeMeter,Batcher.decide,Guarded.refuse,hget,statusOwes,if_neg hs,nativeDue,
      List.map_singleton,List.sum_singleton,unsettledBy]
    omega
  · have hset := hw .ok
    simp only [nativeMeter,Batcher.decide,Guarded.accept,hget,statusOwes,if_true,nativeDue,
      List.map_nil,List.sum_nil,List.length_append,List.length_singleton]
    push_cast
    omega

/-- A step of the worker moves what is due by what it leaves to record. -/
theorem due_worked {e : Env} (h : Worked b b') : nativeDue b'=nativeDue b+
    ((workOwes setup e b b').map unsettledBy).sum := by
  have hfailed (p : Prop) [Decidable p] :
      ((if p then [Recording.failed] else []).map unsettledBy).sum=0 := by
    by_cases hp : p
    · rw [if_pos hp]
      rfl
    · rw [if_neg hp]
      rfl
  cases h with
  | drops now failed hb hw hx =>
    simp only [nativeDue,workOwes,List.drop_left,List.flatMap_singleton,outcomeOwes,List.map_append,
      List.sum_append,List.map_cons,List.sum_cons,hfailed,unsettledBy,hb,hw,List.length_cons]
    push_cast
    ring
  | keeps now hb hw =>
    simp only [nativeDue,workOwes,List.drop_length,List.flatMap_nil,List.nil_append,hfailed,hb,hw,
      List.length_append,List.length_cons,List.length_nil]
    push_cast
    ring
  | moves failed hw =>
    simp only [nativeDue,workOwes,List.drop_length,List.flatMap_nil,List.nil_append,hfailed,hw,
      Int.add_zero]
  | delivers hn =>
    have hh : batchOf .handling=[] := rfl
    simp only [nativeDue,workOwes,List.drop_left,List.flatMap_singleton,outcomeOwes,List.map_append,
      List.sum_append,List.map_singleton,List.sum_singleton,hfailed,unsettledBy,hh,
      List.length_nil]
    push_cast
    ring

/-- A step moves what is due by what it leaves to record. -/
theorem due_native {action : Action} (hr : (machine setup).Reaches b)
    (h : b.step setup action=some b') : nativeDue b'=nativeDue b+
      (((nativeMeter setup).owes b action b').map unsettledBy).sum := by
  cases action with
  | submit request =>
    rw [←Option.some.inj h]
    simp only [nativeDue,nativeMeter,weigh_snoc,undecided,sum_singleton_map,unsettledBy]
    push_cast
    ring
  | trySubmit request =>
    rw [←Option.some.inj h]
    simp only [nativeDue,nativeMeter,weigh_snoc,undecided,sum_singleton_map,unsettledBy]
    push_cast
    ring
  | offer ticket =>
    simp only [Batcher.step] at h
    split at h
    · next entry hc =>
      obtain ⟨answer,hp,rfl⟩ := Option.map_eq_some_iff.mp h
      rcases push_eq hp with ⟨_,ha⟩ | ⟨_,_,ha⟩
      · exact due_decide hc rfl (.inl ⟨_,QueueStatus.noConfusion,ha⟩)
      · exact due_decide hc rfl (.inr ha)
    · next entry hc =>
      rw [←Option.some.inj h]
      rcases tryPush_eq setup.config.queueCapacity b.guarded entry with
        ⟨_,ha⟩ | ⟨_,_,ha⟩ | ⟨_,_,ha⟩
      · exact due_decide hc rfl (.inl ⟨_,QueueStatus.noConfusion,ha⟩)
      · exact due_decide hc rfl (.inl ⟨_,QueueStatus.noConfusion,ha⟩)
      · exact due_decide hc rfl (.inr ha)
    · cases h
  | answer ticket =>
    simp only [Batcher.step] at h
    split at h
    · next status hc =>
      rw [←Option.some.inj h]
      have hw : weigh undecided (b.calls.set ticket (.returned status))=weigh undecided b.calls :=
        weigh_set_same hc rfl
      simp only [nativeDue,nativeMeter,hw,List.map_nil,List.sum_nil,Int.add_zero]
    · cases h
  | shutdown =>
    rw [Batcher.step] at h
    split at h
    · rw [←Option.some.inj h]
      exact (add_zero _).symm
    · rw [←Option.some.inj h]
      exact (add_zero _).symm
  | close =>
    obtain ⟨_,hb⟩ := Option.ite_none_right_eq_some.mp h
    rw [←Option.some.inj hb]
    exact (add_zero _).symm
  | join =>
    obtain ⟨_,hb⟩ := Option.ite_none_right_eq_some.mp h
    rw [←Option.some.inj hb]
    exact (add_zero _).symm
  | work e => exact due_worked (work_worked (reaches_holds hr).sound h).1

/-- The worker records no reception. -/
theorem received_workOwes (e : Env) (before after : Batcher) :
    ((workOwes setup e before after).map receivedBy).sum=0 := by
  refine receivedBy_sum fun recording hr => ?_
  rcases List.mem_append.mp hr with hr | hr
  · obtain ⟨outcome,_,hr⟩ := List.mem_flatMap.mp hr
    cases outcome with
    | dropped entry =>
      rcases List.mem_cons.mp hr with rfl | hr
      · rfl
      · exact receivedBy_failed hr
    | delivered batch =>
      rw [List.mem_singleton.mp hr]
      rfl
  · exact receivedBy_failed hr

/-- The queue's decision is no reception. -/
theorem received_offerOwes (after : Batcher) (ticket : ℕ) :
    (((nativeMeter setup).owes b (.offer ticket) after).map receivedBy).sum=0 := by
  simp only [nativeMeter,statusOwes]
  split
  · split
    · rfl
    · rfl
  · rfl

/-- The worker's steps leave the submissions alone. -/
theorem worked_calls (h : Worked b b') : b'.calls=b.calls := by
  cases h <;> rfl

/-- A reception is recorded for each submission, and for nothing else. -/
theorem received_native {action : Action} (hr : (machine setup).Reaches b)
    (h : b.step setup action=some b') : (b'.calls.length : ℤ)=b.calls.length+
      (((nativeMeter setup).owes b action b').map receivedBy).sum := by
  cases action with
  | submit request =>
    rw [←Option.some.inj h,List.length_append]
    rfl
  | trySubmit request =>
    rw [←Option.some.inj h,List.length_append]
    rfl
  | offer ticket =>
    rw [received_offerOwes,Int.add_zero]
    simp only [Batcher.step] at h
    split at h
    · obtain ⟨answer,_,rfl⟩ := Option.map_eq_some_iff.mp h
      rw [Batcher.decide,List.length_set]
    · rw [←Option.some.inj h,Batcher.decide,List.length_set]
    · cases h
  | answer ticket =>
    simp only [Batcher.step] at h
    split at h
    · rw [←Option.some.inj h,List.length_set]
      exact (Int.add_zero _).symm
    · cases h
  | shutdown =>
    rw [Batcher.step] at h
    split at h
    · rw [←Option.some.inj h]
      exact (Int.add_zero _).symm
    · rw [←Option.some.inj h]
      exact (Int.add_zero _).symm
  | close =>
    obtain ⟨_,hb⟩ := Option.ite_none_right_eq_some.mp h
    rw [←Option.some.inj hb]
    exact (Int.add_zero _).symm
  | join =>
    obtain ⟨_,hb⟩ := Option.ite_none_right_eq_some.mp h
    rw [←Option.some.inj hb]
    exact (Int.add_zero _).symm
  | work e =>
    rw [worked_calls (work_worked (reaches_holds hr).sound h).1]
    simp only [nativeMeter,received_workOwes,Int.add_zero]

/-- Every submission has returned, the queue is empty, the worker holds no
request and every recording is made. -/
structure NativeQuiescent (m : Metered Batcher MetricsRegistry Recording) : Prop where
  returned : ∀ call∈m.state.calls, ∃ status, call=.returned status
  buffer : m.state.guarded.buffer=[]
  batch : batchOf m.state.worker=[]
  owed : m.owed=[]

/-- A batcher whose only call has returned, with nothing left to do. -/
theorem quiescent_single {m : Metered Batcher MetricsRegistry Recording} (status : QueueStatus)
    (hc : m.state.calls=[.returned status]) (hb : m.state.guarded.buffer=[])
    (hw : batchOf m.state.worker=[]) (ho : m.owed=[]) : NativeQuiescent m :=
  ⟨fun _ hm => ⟨status,List.mem_singleton.mp (hc ▸ hm)⟩,hb,hw,ho⟩

/-- At quiescence every request is accounted for. -/
theorem native_account {m : Metered Batcher MetricsRegistry Recording}
    (h : (meteredNative setup).Reaches m) (hq : NativeQuiescent m) :
    unsettled m.counters=0 ∧ m.counters.received=m.state.calls.length := by
  constructor
  · have hw : weigh undecided m.state.calls=0 := by
      refine weigh_zero fun call hm => ?_
      obtain ⟨status,rfl⟩ := hq.returned call hm
      rfl
    have ha := audit_settled unsettled unsettledBy nativeDue unsettled_record
      (by intro b hb; rw [(made_eq hb).1]; rfl) (fun _ _ _ hr ht => due_native hr ht) h hq.owed
    rw [ha,nativeDue,hq.buffer,hq.batch,hw]
    rfl
  · have ha := audit_settled (fun metrics => (metrics.received : ℤ)) receivedBy
      (fun b => (b.calls.length : ℤ)) received_record
      (by intro b hb; rw [(made_eq hb).1]; rfl) (fun _ _ _ hr ht => received_native hr ht) h hq.owed
    exact_mod_cast ha

end Native

/-! ## The balance of both -/

/-- The ingress counters balance, and every call was received once. -/
def Balanced (metrics : MetricsRegistry) (calls : ℕ) : Prop :=
  metrics.received=metrics.rejected+metrics.expired+metrics.batchedRequests ∧
    metrics.received=calls

section Runs

open DynamicShutdown

/-- A request that is received, handled in a batch of its own, and counted. -/
def servedIntake : List (MeterStep IntakeAction) :=
  [.act (.caller (.submit (plainRequest "a"))),.record 0,
    .act (.caller (.enqueue (plainRequest "a"))),.act (.thread {} false),.act (.thread {} false),
    .act (.thread {} false),.record 0]

/-- A shutdown, and then a submission that is turned away. -/
def lateIntake : List (MeterStep IntakeAction) :=
  [.act (.caller .shutdown),.act (.caller .announce),.act (.caller .putSentinel),
    .act (.thread {} false),.act (.caller (.submit (plainRequest "a"))),.record 0]

/-- Batches of one, a queue of one. -/
def narrowSetup : NativeBatcher.Setup := {config := {maxBatchSize := 1, queueCapacity := 1}}

/-- A request that the C++ batcher serves. -/
def servedNative : List (MeterStep NativeBatcher.Action) :=
  [.act (.submit ⟨0,0,0⟩),.record 0,.act (.offer 0),.act (.answer 0),.act (.work {}),
    .act (.work {}),.act (.work {}),.record 0]

end Runs

end CudaForge.IngressCounters
