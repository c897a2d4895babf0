import CudaForge.SubmissionQueue

/-!
# The dynamic batcher's collector thread

`_run` and `_collect` of the Python batcher, one queue operation a step. A
batch is anchored to its first request and closes when it is full, when its
deadline passes or when the sentinel is read; in the last case the thread
drains what is buffered and puts the sentinel back without waiting. The times
are floats: readings are compared as they are, sums and differences are
rounded. Metrics, the callbacks' failures, which the thread only counts, and
waits that are too long are not modelled.
-/

namespace CudaForge.DynamicBatching

open ServingTypes SubmissionQueue TransitionRuns

/-- Why the batcher stopped accumulating. -/
inductive BatchTrigger where
  | maxSize
  | timeout
  | shutdown
  deriving DecidableEq,Repr

/-- Requests the batcher decided to execute together. -/
structure Batch where
  requests : List Request
  trigger : BatchTrigger
  deriving DecidableEq

/-- The batcher's fixed parameters. -/
structure DynamicConfig where
  /-- Most requests in a batch. -/
  maxBatchSize : ℕ := 16
  /-- How long the first request of a batch may wait. -/
  maxWait : ℚ := 1/200
  /-- Most requests queued. -/
  queueCapacity : ℕ := 1024
  /-- What a sum or a difference of times is rounded to. -/
  rounded : ℚ → ℚ := id
  maxBatchSize_pos : 0 < maxBatchSize
  maxWait_nonneg : 0 ≤ maxWait
  capacity_le : maxBatchSize≤queueCapacity

/-- The longest timeout that a wait takes, `threading.TIMEOUT_MAX`: a longer
one raises `OverflowError`. -/
def timeoutMax : ℚ := 9223372036

/-- Where the thread is. -/
inductive Stage where
  /-- Blocking on the queue for the first request of a batch. -/
  | waiting
  /-- Filling a batch until its deadline. -/
  | filling (requests : List Request) (deadline : ℚ)
  /-- The sentinel was read; taking what is buffered. -/
  | draining (requests : List Request)
  /-- About to put the sentinel back. -/
  | reposting (requests : List Request)
  /-- About to hand a batch over. -/
  | handling (batch : Batch)
  /-- The thread has returned. -/
  | returned
  deriving DecidableEq

/-- The clock as one step of the thread reads it. -/
structure Clock where
  /-- When a request is stamped. -/
  now : ℚ := 0
  /-- When its deadline is checked. -/
  checkedAt : ℚ := 0
  /-- When the time left to fill a batch is computed. -/
  remainingAt : ℚ := 0

/-- The batcher with its callers. -/
structure DynamicBatcher where
  ingress : Ingress := {}
  stage : Stage := .waiting
  /-- The batches the handler was given. -/
  handled : List Batch := []
  /-- The requests dropped for their deadline. -/
  dropped : List Request := []
  deriving DecidableEq

variable {config : DynamicConfig} {clock : Clock}

/-- A request as it leaves the queue. -/
def stamped (clock : Clock) (request : Request) : Request :=
  {request with dequeuedAt := some clock.now}

/-- Drop a request that has expired, or go on with it. -/
def dropOr (clock : Clock) (request : Request) (kept : Stage) (b : DynamicBatcher) :
    DynamicBatcher :=
  if (stamped clock request).expired clock.checkedAt then
    {b with dropped := b.dropped++[stamped clock request]}
  else {b with stage := kept}

/-- The batcher once the front of its queue was read. -/
def popped (rest : List (Option Request)) (b : DynamicBatcher) : DynamicBatcher :=
  {b with ingress := {b.ingress with queue := rest}}

/-- Wait for the first request of a batch. -/
def waitStep (config : DynamicConfig) (clock : Clock) (b : DynamicBatcher) :
    Option DynamicBatcher :=
  match b.ingress.queue with
  | [] => none
  | none::rest => some {popped rest b with stage := .returned}
  | some request::rest =>
    some (dropOr clock request
      (.filling [stamped clock request] (config.rounded (clock.now+config.maxWait)))
      (popped rest b))

/-- Fill a batch. -/
def fillStep (config : DynamicConfig) (clock : Clock) (requests : List Request) (deadline : ℚ)
    (b : DynamicBatcher) : DynamicBatcher :=
  if requests.length<config.maxBatchSize then
    if config.rounded (deadline-clock.remainingAt)≤0 then
      {b with stage := .handling ⟨requests,.timeout⟩}
    else
      match b.ingress.queue with
      | [] => {b with stage := .handling ⟨requests,.timeout⟩}
      | none::rest => {popped rest b with stage := .draining requests}
      | some request::rest =>
        dropOr clock request (.filling (requests++[stamped clock request]) deadline) (popped rest b)
  else {b with stage := .handling ⟨requests,.maxSize⟩}

/-- Take what is buffered behind the sentinel. -/
def drainStep (config : DynamicConfig) (clock : Clock) (requests : List Request)
    (b : DynamicBatcher) : DynamicBatcher :=
  if requests.length<config.maxBatchSize then
    match b.ingress.queue with
    | [] => {b with stage := .reposting requests}
    | none::rest => {popped rest b with stage := .reposting requests}
    | some request::rest =>
      dropOr clock request (.draining (requests++[stamped clock request])) (popped rest b)
  else {b with stage := .reposting requests}

/-- Put the sentinel back without waiting; a full queue is ignored. -/
def repostStep (config : DynamicConfig) (requests : List Request) (b : DynamicBatcher) :
    DynamicBatcher :=
  if b.ingress.queue.length<config.queueCapacity then
    {popped (b.ingress.queue++[none]) b with stage := .handling ⟨requests,.shutdown⟩}
  else {b with stage := .handling ⟨requests,.shutdown⟩}

/-- One step of the thread, if it is not blocked. -/
def collectorStep (config : DynamicConfig) (clock : Clock) (b : DynamicBatcher) :
    Option DynamicBatcher :=
  match b.stage with
  | .waiting => waitStep config clock b
  | .filling requests deadline => some (fillStep config clock requests deadline b)
  | .draining requests => some (drainStep config clock requests b)
  | .reposting requests => some (repostStep config requests b)
  | .handling batch => some {b with stage := .waiting, handled := b.handled++[batch]}
  | .returned => none

/-- A step of a caller or of the collector thread. -/
inductive Action where
  | caller (call : Call)
  | thread (clock : Clock)

/-- What a step does, if it can be taken now. -/
def DynamicBatcher.step (config : DynamicConfig) (b : DynamicBatcher) :
    Action → Option DynamicBatcher
  | .caller call =>
    (b.ingress.call config.queueCapacity call).map (fun ingress => {b with ingress := ingress})
  | .thread clock => collectorStep config clock b

/-- The batcher and its callers, from construction on. -/
def dynamicMachine (config : DynamicConfig) : Machine DynamicBatcher Action where
  starts b := b={}
  steps b action c := b.step config action=some c

end CudaForge.DynamicBatching
