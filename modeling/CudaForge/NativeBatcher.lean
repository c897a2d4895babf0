import CudaForge.ConcurrentQueue

/-!
# The native dynamic batcher

`DynamicBatcher`: callers push requests into the blocking queue, one worker
thread collects them into batches and hands those to the owner's handler, and
`shutdown` closes the queue and joins the worker. A critical section of the
queue is one step; between two steps of one thread any other thread may take
some. Clock readings, expired waits and throwing handlers come from outside.
Metrics are not modelled, but for the failures the two guards record.
-/

namespace CudaForge.NativeBatcher

open ConcurrentQueue TransitionRuns

/-- The tuning knobs, with the ones only the check reads. -/
structure RuntimeConfig where
  maxBatchSize : ℕ := 16
  /-- In microseconds. -/
  maxWait : ℤ := 5000
  queueCapacity : ℕ := 1024
  workerThreads : ℕ := 4
  cudaStreams : ℕ := 4

/-- The check of the constructor, with the text of its exception. -/
def RuntimeConfig.validate (config : RuntimeConfig) : Except String Unit :=
  if config.maxBatchSize=0 then .error "max_batch_size must be non-zero"
  else if config.queueCapacity=0 then .error "queue_capacity must be non-zero"
  else if config.workerThreads=0 then .error "worker_threads must be non-zero"
  else if config.cudaStreams=0 then .error "cuda_streams must be non-zero"
  else if config.maxWait < 0 then .error "max_wait must not be negative"
  else if config.queueCapacity < config.maxBatchSize then
    .error "queue_capacity must be at least max_batch_size"
  else .ok ()

/-- The fields of a request the batcher looks at. -/
structure Request where
  id : ℕ
  /-- In nanoseconds; the epoch means none. -/
  deadline : ℤ := 0
  /-- When the worker took it from the queue. -/
  dequeued : ℤ := 0
  deriving DecidableEq

/-- `expired`. -/
def Request.expired (request : Request) (now : ℤ) : Bool :=
  decide (request.deadline≠0)&&decide (request.deadline≤now)

/-- A submitted request, with the number of the call that submitted it. The
code never looks at the number. -/
structure Entry where
  /-- Which call submitted it. -/
  ticket : ℕ
  /-- What it submitted. -/
  request : Request
  deriving DecidableEq

/-- The worker notes when it took the request. -/
def Entry.stamp (entry : Entry) (now : ℤ) : Entry :=
  {entry with request := {entry.request with dequeued := now}}

/-- Why a batch was closed. -/
inductive BatchTrigger where
  | maxSize
  | timeout
  | shutdown
  deriving DecidableEq

/-- Where a submission stands. -/
inductive Call where
  /-- `submit`, which waits for room. -/
  | pushing (entry : Entry)
  /-- `try_submit`, which does not. -/
  | trying (entry : Entry)
  /-- The queue decided. -/
  | decided (status : QueueStatus)
  /-- The call returned what the queue decided; `submit` returns whether that
  is `Ok`. -/
  | returned (status : QueueStatus)
  deriving DecidableEq

/-- Where the shutdown call stands that found `stopping_` clear. -/
inductive FirstShutdown where
  | absent
  /-- It is to close the queue. -/
  | closing
  /-- It waits for the worker. -/
  | joining
  | returned
  deriving DecidableEq

/-- Where the worker stands. -/
inductive Worker where
  /-- In the first loop of `collect_batch`. -/
  | popping
  /-- At the head of the second loop. -/
  | filling (batch : List Entry) (deadline : ℤ)
  /-- In `pop_for`. -/
  | waiting (batch : List Entry) (deadline : ℤ)
  /-- In the loop that drains a closed queue. -/
  | draining (batch : List Entry)
  /-- `collect_batch` returned. -/
  | collected (batch : List Entry) (trigger : BatchTrigger)
  /-- In the handler. -/
  | handling
  /-- `run` returned. -/
  | returned
  deriving DecidableEq

/-- What became of requests. -/
inductive Outcome where
  /-- The handler was called with a batch. -/
  | delivered (batch : List Entry)
  /-- An expired request was dropped. -/
  | dropped (entry : Entry)
  deriving DecidableEq

/-- The batcher and its callers. -/
structure Batcher where
  /-- The fields the queue's mutex guards. -/
  guarded : Guarded Entry := {}
  /-- `stopping_`. -/
  stopping : Bool := false
  /-- The worker thread. -/
  worker : Worker := .popping
  /-- The submissions so far. -/
  calls : List Call := []
  /-- The shutdown that does the work. -/
  first : FirstShutdown := .absent
  /-- Failures recorded for throwing handlers. -/
  failed : ℕ := 0
  /-- What the queue accepted, in that order. -/
  accepted : List Entry := []
  /-- What became of requests so far, in that order. -/
  log : List Outcome := []

/-- What a step of the worker gets from outside. -/
structure Env where
  /-- The clock when it looks at it first. -/
  now : ℤ := 0
  /-- The clock when it tests a deadline. -/
  tested : ℤ := 0
  /-- The time of its timed wait is up. -/
  expired : Bool := false
  /-- The handler it calls throws. -/
  raises : Bool := false

/-- What the owner constructs the batcher with. -/
structure Setup where
  config : RuntimeConfig := {}
  /-- It passed a handler for expired requests. -/
  onExpired : Bool := false

/-- `drop_if_expired` found the request expired. -/
def Batcher.drop (setup : Setup) (b : Batcher) (e : Env) (entry : Entry) : Batcher :=
  {b with
    log := b.log++[.dropped entry]
    failed := b.failed+(if setup.onExpired&&e.raises then 1 else 0)}

/-- A popped request is dropped, or kept for the batch. -/
def Batcher.take (setup : Setup) (b : Batcher) (e : Env) (entry : Entry)
    (dropped kept : Worker) : Batcher :=
  if (entry.stamp e.now).request.expired e.tested then
    {b.drop setup e (entry.stamp e.now) with worker := dropped}
  else {b with worker := kept}

/-- The end of `collect_batch`. -/
def finish (setup : Setup) (batch : List Entry) (trigger : BatchTrigger) : Worker :=
  .collected batch (if setup.config.maxBatchSize ≤ batch.length then .maxSize else trigger)

/-- A step of the worker, if it does not have to wait. -/
def Batcher.work (setup : Setup) (b : Batcher) (e : Env) : Option Batcher :=
  match b.worker with
  | .popping =>
    match b.guarded.pop with
    | none => none
    | some answer =>
      match answer.status,answer.item with
      | .ok,some entry =>
        some ({b with guarded := answer.after}.take setup e entry .popping
          (.filling [entry.stamp e.now] (e.now+setup.config.maxWait*1000)))
      | _,_ => some {b with guarded := answer.after, worker := .collected [] .maxSize}
  | .filling batch deadline =>
    if batch.length < setup.config.maxBatchSize then
      if deadline-e.now≤0 then some {b with worker := finish setup batch .timeout}
      else some {b with worker := .waiting batch deadline}
    else some {b with worker := finish setup batch .maxSize}
  | .waiting batch deadline =>
    match b.guarded.popFor e.expired with
    | none => none
    | some answer =>
      match answer.status,answer.item with
      | .ok,some entry =>
        some ({b with guarded := answer.after}.take setup e entry (.filling batch deadline)
          (.filling (batch++[entry.stamp e.now]) deadline))
      | .closed,_ => some {b with guarded := answer.after, worker := .draining batch}
      | _,_ => some {b with guarded := answer.after, worker := finish setup batch .timeout}
  | .draining batch =>
    if batch.length < setup.config.maxBatchSize then
      match b.guarded.tryPop.status,b.guarded.tryPop.item with
      | .ok,some entry =>
        some ({b with guarded := b.guarded.tryPop.after}.take setup e entry (.draining batch)
          (.draining (batch++[entry.stamp e.now])))
      | _,_ => some {b with
          guarded := b.guarded.tryPop.after, worker := finish setup batch .shutdown}
    else some {b with worker := finish setup batch .shutdown}
  | .collected batch _ =>
    if batch=[] then some {b with worker := .returned}
    else some {b with log := b.log++[.delivered batch], worker := .handling}
  | .handling =>
    some {b with failed := b.failed+(if e.raises then 1 else 0), worker := .popping}
  | .returned => none

/-- A step of some thread. -/
inductive Action where
  /-- A caller calls `submit`. -/
  | submit (request : Request)
  /-- A caller calls `try_submit`. -/
  | trySubmit (request : Request)
  /-- A submission holds the queue's mutex and does not have to wait. -/
  | offer (ticket : ℕ)
  /-- A submission returns. -/
  | answer (ticket : ℕ)
  /-- A caller calls `shutdown` and exchanges `stopping_`. -/
  | shutdown
  /-- The first shutdown closes the queue. -/
  | close
  /-- It joins the worker and returns. -/
  | join
  /-- The worker goes on. -/
  | work (e : Env)

/-- The queue decided a submission. -/
def Batcher.decide (b : Batcher) (entry : Entry) (ticket : ℕ) (answer : Answer Entry) : Batcher :=
  {b with
    guarded := answer.after
    calls := b.calls.set ticket (.decided answer.status)
    accepted := if answer.status=.ok then b.accepted++[entry] else b.accepted}

/-- What a step does, if it can be taken now. -/
def Batcher.step (setup : Setup) (b : Batcher) : Action → Option Batcher
  | .submit request => some {b with calls := b.calls++[.pushing ⟨b.calls.length,request⟩]}
  | .trySubmit request => some {b with calls := b.calls++[.trying ⟨b.calls.length,request⟩]}
  | .offer ticket =>
    match b.calls[ticket]? with
    | some (.pushing entry) =>
      (b.guarded.push setup.config.queueCapacity entry).map (b.decide entry ticket)
    | some (.trying entry) =>
      some (b.decide entry ticket (b.guarded.tryPush setup.config.queueCapacity entry))
    | _ => none
  | .answer ticket =>
    match b.calls[ticket]? with
    | some (.decided status) => some {b with calls := b.calls.set ticket (.returned status)}
    | _ => none
  | .shutdown =>
    if b.stopping then some b else some {b with stopping := true, first := .closing}
  | .close =>
    if b.first=.closing then
      some {b with guarded := {b.guarded with closed := true}, first := .joining}
    else none
  | .join =>
    if b.first=.joining ∧ b.worker=.returned then some {b with first := .returned} else none
  | .work e => b.work setup e

/-- The constructor checks its configuration and starts the worker. -/
def make (setup : Setup) : Except String Batcher := setup.config.validate.map (fun _ => {})

/-- A new batcher has passed its check. -/
theorem made_eq {setup : Setup} {b : Batcher} (h : make setup=.ok b) :
    b={} ∧ 0<setup.config.maxBatchSize := by
  unfold make RuntimeConfig.validate at h
  split_ifs at h with h1 _ _ _ _ _
  · exact absurd h nofun
  · exact absurd h nofun
  · exact absurd h nofun
  · exact absurd h nofun
  · exact absurd h nofun
  · exact absurd h nofun
  · exact ⟨(Except.ok.inj h).symm,Nat.pos_of_ne_zero h1⟩

/-- The runs of a new batcher. -/
def machine (setup : Setup) : Machine Batcher Action where
  starts b := make setup=.ok b
  steps b action b' := b.step setup action=some b'

end CudaForge.NativeBatcher
