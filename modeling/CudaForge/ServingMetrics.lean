import Mathlib.Tactic

/-!
# The counters of a metrics registry

`MetricsRegistry`, in Python and in C++, as far as its running totals go: each
recording adds to one or two of them. The counters are natural numbers.
-/

namespace CudaForge.ServingMetrics

/-- Running totals. -/
@[ext]
structure MetricsRegistry where
  /-- Requests counted when they were submitted. -/
  received : ℕ := 0
  /-- Requests that got a response. -/
  completed : ℕ := 0
  /-- Requests, batches or callbacks that raised. -/
  failed : ℕ := 0
  /-- Requests that were turned away. -/
  rejected : ℕ := 0
  /-- Requests dropped behind their deadline. -/
  expired : ℕ := 0
  /-- Batches handed over. -/
  batches : ℕ := 0
  /-- Requests in these batches. -/
  batchedRequests : ℕ := 0
  /-- Batches that were not closed by a deadline. -/
  sizeClosures : ℕ := 0
  /-- Batches closed by the deadline of their first request. -/
  timeoutClosures : ℕ := 0
  /-- Tokens produced. -/
  tokens : ℕ := 0
  deriving DecidableEq

/-- What a batcher records. -/
inductive Recording where
  /-- `record_received`. -/
  | received
  /-- `record_rejected`. -/
  | rejected
  /-- `record_failed`. -/
  | failed
  /-- `record_expired`. -/
  | expired
  /-- `record_batch`. -/
  | batch (size : ℕ) (closedByTimeout : Bool)
  deriving DecidableEq

/-- One recording. -/
def MetricsRegistry.record (metrics : MetricsRegistry) : Recording → MetricsRegistry
  | .received => {metrics with received := metrics.received+1}
  | .rejected => {metrics with rejected := metrics.rejected+1}
  | .failed => {metrics with failed := metrics.failed+1}
  | .expired => {metrics with expired := metrics.expired+1}
  | .batch size closedByTimeout =>
    if closedByTimeout then
      {metrics with
        batches := metrics.batches+1
        batchedRequests := metrics.batchedRequests+size
        timeoutClosures := metrics.timeoutClosures+1}
    else
      {metrics with
        batches := metrics.batches+1
        batchedRequests := metrics.batchedRequests+size
        sizeClosures := metrics.sizeClosures+1}

/-- Requests received and not heard of since. -/
def unsettled (metrics : MetricsRegistry) : ℤ :=
  metrics.received-metrics.rejected-metrics.expired-metrics.batchedRequests

/-- How a recording moves that number. -/
def unsettledBy : Recording → ℤ
  | .received => 1
  | .rejected => -1
  | .failed => 0
  | .expired => -1
  | .batch size _ => -size

/-- How a recording moves the number of received requests. -/
def receivedBy : Recording → ℤ
  | .received => 1
  | .rejected => 0
  | .failed => 0
  | .expired => 0
  | .batch _ _ => 0

theorem unsettled_record (metrics : MetricsRegistry) (recording : Recording) :
    unsettled (metrics.record recording)=unsettled metrics+unsettledBy recording := by
  cases recording with
  | batch size closedByTimeout =>
    cases closedByTimeout <;> simp only [unsettled,MetricsRegistry.record,unsettledBy] <;>
      push_cast <;> ring
  | _ =>
    simp only [unsettled,MetricsRegistry.record,unsettledBy]
    push_cast
    ring

theorem received_record (metrics : MetricsRegistry) (recording : Recording) :
    ((metrics.record recording).received : ℤ)=metrics.received+receivedBy recording := by
  cases recording with
  | batch size closedByTimeout => cases closedByTimeout <;> exact (Int.add_zero _).symm
  | received => exact Nat.cast_succ _
  | _ => exact (Int.add_zero _).symm

/-- Recordings without a reception. -/
theorem receivedBy_sum {recordings : List Recording} (h : ∀ r∈recordings, receivedBy r=0) :
    (recordings.map receivedBy).sum=0 := by
  refine List.sum_eq_zero fun n hn => ?_
  obtain ⟨recording,hr,rfl⟩ := List.mem_map.mp hn
  exact h recording hr

end CudaForge.ServingMetrics
