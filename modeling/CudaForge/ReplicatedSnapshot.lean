import CudaForge.ServingMetrics

/-!
# The snapshot of a replicated engine

`MetricsRegistry.snapshot`, the labels and the queue depth that an engine adds
to it, and `ReplicatedEngine.snapshot`, which starts from the first replica's
and sums four of the ten counters. Clock readings come from outside. A float
is a rational number.
-/

namespace CudaForge.ReplicatedSnapshot

open ServingMetrics

/-! ## Linear laws -/

section Laws

variable {ι : Type}

/-- A linear combination of indexed values. -/
def combination (indices : List ι) (weights : ι → ℤ) (value : ι → ℤ) : ℤ :=
  (indices.map fun i => weights i*value i).sum

/-- A combination looks at the values of its own indices. -/
theorem combination_congr {indices : List ι} {value value' : ι → ℤ} (weights : ι → ℤ)
    (h : ∀ i∈indices, value i=value' i) :
    combination indices weights value=combination indices weights value' := by
  refine congrArg List.sum (List.map_congr_left fun i hi => ?_)
  rw [h i hi]

/-- The combination of sums is the sum of the combinations. -/
theorem combination_sum (indices : List ι) (weights : ι → ℤ) (values : List (ι → ℤ)) :
    combination indices weights (fun i => (values.map (· i)).sum)=
      (values.map (combination indices weights)).sum := by
  induction values with
  | nil =>
    refine List.sum_eq_zero fun n hn => ?_
    obtain ⟨i,_,rfl⟩ := List.mem_map.mp hn
    exact mul_zero _
  | cons value values ih =>
    rw [List.map_cons,List.sum_cons,←ih]
    simp only [combination,List.map_cons,List.sum_cons,mul_add]
    exact List.sum_map_add

end Laws

/-! ## Registries and engines -/

/-- What is read of a latency histogram. -/
structure LatencyHistogram where
  /-- The most recent samples, sorted, in seconds. -/
  samples : List ℚ := []
  /-- How many samples there ever were. -/
  count : ℕ := 0
  /-- Their sum. -/
  total : ℚ := 0

/-- The sample at a quantile, zero without samples. -/
def LatencyHistogram.percentile (histogram : LatencyHistogram) (quantile : ℚ) : ℚ :=
  histogram.samples.getD
    (⌊min (max quantile 0) 1*(histogram.samples.length-1 : ℕ)⌋).toNat 0

/-- The mean of all samples, zero without samples. -/
def LatencyHistogram.mean (histogram : LatencyHistogram) : ℚ :=
  if histogram.count=0 then 0 else histogram.total/histogram.count

/-- The largest recent sample, zero without samples. -/
def LatencyHistogram.maximum (histogram : LatencyHistogram) : ℚ :=
  histogram.samples.getLast?.getD 0

/-- A metrics registry with all it keeps. -/
structure Registry extends MetricsRegistry where
  /-- When it was made. -/
  start : ℚ := 0
  /-- The queue depth it was told last. -/
  queueDepth : ℕ := 0
  /-- From submission to response. -/
  latency : LatencyHistogram := {}
  /-- From submission to batch. -/
  queueDelay : LatencyHistogram := {}

/-- The value of a label. -/
inductive Label where
  | text (value : String)
  | number (value : ℕ)
  deriving DecidableEq

/-- A point-in-time view. -/
structure MetricsSnapshot where
  requestsReceived : ℕ := 0
  requestsCompleted : ℕ := 0
  requestsFailed : ℕ := 0
  requestsRejected : ℕ := 0
  requestsExpired : ℕ := 0
  batchesProcessed : ℕ := 0
  batchedRequests : ℕ := 0
  batchesClosedBySize : ℕ := 0
  batchesClosedByTimeout : ℕ := 0
  tokensGenerated : ℕ := 0
  queueDepth : ℕ := 0
  averageBatchSize : ℚ := 0
  uptimeSeconds : ℚ := 0
  requestsPerSecond : ℚ := 0
  tokensPerSecond : ℚ := 0
  queueDelayP50Ms : ℚ := 0
  queueDelayP95Ms : ℚ := 0
  queueDelayP99Ms : ℚ := 0
  latencyP50Ms : ℚ := 0
  latencyP95Ms : ℚ := 0
  latencyP99Ms : ℚ := 0
  latencyMaxMs : ℚ := 0
  latencyMeanMs : ℚ := 0
  /-- Labels by name. -/
  extra : List (String × Label) := []

/-- `snapshot`, at a reading of the clock. -/
def Registry.snapshot (metrics : Registry) (now : ℚ) : MetricsSnapshot :=
  let elapsed := max (now-metrics.start) (1/1000000000)
  { requestsReceived := metrics.received
    requestsCompleted := metrics.completed
    requestsFailed := metrics.failed
    requestsRejected := metrics.rejected
    requestsExpired := metrics.expired
    batchesProcessed := metrics.batches
    batchedRequests := metrics.batchedRequests
    batchesClosedBySize := metrics.sizeClosures
    batchesClosedByTimeout := metrics.timeoutClosures
    tokensGenerated := metrics.tokens
    queueDepth := metrics.queueDepth
    averageBatchSize :=
      if metrics.batches=0 then 0 else (metrics.batchedRequests : ℚ)/metrics.batches
    uptimeSeconds := elapsed
    requestsPerSecond := metrics.completed/elapsed
    tokensPerSecond := metrics.tokens/elapsed
    queueDelayP50Ms := metrics.queueDelay.percentile (1/2)*1000
    queueDelayP95Ms := metrics.queueDelay.percentile (19/20)*1000
    queueDelayP99Ms := metrics.queueDelay.percentile (99/100)*1000
    latencyP50Ms := metrics.latency.percentile (1/2)*1000
    latencyP95Ms := metrics.latency.percentile (19/20)*1000
    latencyP99Ms := metrics.latency.percentile (99/100)*1000
    latencyMaxMs := metrics.latency.maximum*1000
    latencyMeanMs := metrics.latency.mean*1000 }

/-- A counter of the text exposition. -/
inductive Counter where
  | requestsReceived
  | requestsCompleted
  | requestsFailed
  | requestsRejected
  | requestsExpired
  | batchesProcessed
  | batchedRequests
  | batchesClosedBySize
  | batchesClosedByTimeout
  | tokensGenerated
  deriving DecidableEq

/-- The counters that the text exposition renders, in its order. -/
def counters : List Counter :=
  [.requestsReceived,.requestsCompleted,.requestsFailed,.requestsRejected,.requestsExpired,
    .batchesProcessed,.batchedRequests,.batchesClosedBySize,.batchesClosedByTimeout,
    .tokensGenerated]

/-- The field of a counter. -/
def MetricsSnapshot.value (snapshot : MetricsSnapshot) : Counter → ℕ
  | .requestsReceived => snapshot.requestsReceived
  | .requestsCompleted => snapshot.requestsCompleted
  | .requestsFailed => snapshot.requestsFailed
  | .requestsRejected => snapshot.requestsRejected
  | .requestsExpired => snapshot.requestsExpired
  | .batchesProcessed => snapshot.batchesProcessed
  | .batchedRequests => snapshot.batchedRequests
  | .batchesClosedBySize => snapshot.batchesClosedBySize
  | .batchesClosedByTimeout => snapshot.batchesClosedByTimeout
  | .tokensGenerated => snapshot.tokensGenerated

/-- `setattr` on the field of a counter. -/
def MetricsSnapshot.assign (snapshot : MetricsSnapshot) (n : ℕ) : Counter → MetricsSnapshot
  | .requestsReceived => {snapshot with requestsReceived := n}
  | .requestsCompleted => {snapshot with requestsCompleted := n}
  | .requestsFailed => {snapshot with requestsFailed := n}
  | .requestsRejected => {snapshot with requestsRejected := n}
  | .requestsExpired => {snapshot with requestsExpired := n}
  | .batchesProcessed => {snapshot with batchesProcessed := n}
  | .batchedRequests => {snapshot with batchedRequests := n}
  | .batchesClosedBySize => {snapshot with batchesClosedBySize := n}
  | .batchesClosedByTimeout => {snapshot with batchesClosedByTimeout := n}
  | .tokensGenerated => {snapshot with tokensGenerated := n}

/-- Set a label. -/
def withLabel (extra : List (String × Label)) (entry : String × Label) : List (String × Label) :=
  if entry.1∈extra.map (·.1) then
    extra.map fun old => if old.1=entry.1 then entry else old
  else extra++[entry]

/-- One engine, as far as its snapshot goes. -/
structure Replica where
  /-- Its registry. -/
  metrics : Registry := {}
  /-- Its queue depth. -/
  queueDepth : ℕ := 0
  /-- The labels it adds. -/
  labels : List (String × Label) := []

/-- The snapshot of one engine. -/
def Replica.snapshot (replica : Replica) (now : ℚ) : MetricsSnapshot :=
  let snapshot := replica.metrics.snapshot now
  { snapshot with
    queueDepth := replica.queueDepth
    extra := replica.labels.foldl withLabel snapshot.extra }

/-- One engine per device; the constructor refuses none. -/
structure ReplicatedEngine where
  replicas : List Replica
  nonempty : replicas≠[]

/-- The counters that `snapshot` sums. -/
def summed : List Counter :=
  [.requestsCompleted,.requestsFailed,.requestsExpired,.batchesProcessed]

/-- The loop over these counters. The first snapshot is the one that is
written to, so it is among those that are summed. -/
def combine (first : MetricsSnapshot) (rest : List MetricsSnapshot) : MetricsSnapshot :=
  summed.foldl (fun combined counter =>
    combined.assign (((combined::rest).map fun s => s.value counter).sum) counter) first

namespace ReplicatedEngine

/-- The queue depth of all replicas together. -/
def queueDepth (engine : ReplicatedEngine) : ℕ := (engine.replicas.map (·.queueDepth)).sum

/-- The snapshots of the replicas, each at its own reading of the clock. -/
def snapshots (engine : ReplicatedEngine) (now : ℕ → ℚ) : List MetricsSnapshot :=
  engine.replicas.mapIdx fun index replica => replica.snapshot (now index)

/-- `snapshot`. -/
def snapshot (engine : ReplicatedEngine) (now : ℕ → ℚ) : MetricsSnapshot :=
  let snapshots := engine.snapshots now
  let combined := combine (snapshots.headD {}) snapshots.tail
  { combined with
    queueDepth := engine.queueDepth
    extra := [("replicas",.number engine.replicas.length),
      ("routing",.text "least-queue-depth"),("parallelism",.text "data"),
      ("percentiles_from",.text "replica 0 only; histograms do not merge")].foldl withLabel
        combined.extra }

end ReplicatedEngine

/-! ## What is summed -/

/-- The exposed counters of the combined snapshot are sums over the replicas,
so that each linear law the replicas obey is one that it obeys. -/
structure Aggregates (engine : ReplicatedEngine) (now : ℕ → ℚ) : Prop where
  /-- Each counter is a sum. -/
  sums : ∀ counter∈counters, (engine.snapshot now).value counter=
    ((engine.snapshots now).map fun s => s.value counter).sum
  /-- Equations carry over. -/
  conserves : ∀ weights : Counter → ℤ,
    (∀ s∈engine.snapshots now, combination counters weights (fun c => s.value c)=0) →
      combination counters weights (fun c => (engine.snapshot now).value c)=0
  /-- Inequalities carry over. -/
  bounds : ∀ weights : Counter → ℤ,
    (∀ s∈engine.snapshots now, 0≤combination counters weights (fun c => s.value c)) →
      0≤combination counters weights (fun c => (engine.snapshot now).value c)

/-- A registry that recorded nothing in the counters that are not summed. -/
structure Unsummed (metrics : Registry) : Prop where
  received : metrics.received=0
  rejected : metrics.rejected=0
  batchedRequests : metrics.batchedRequests=0
  sizeClosures : metrics.sizeClosures=0
  timeoutClosures : metrics.timeoutClosures=0
  tokens : metrics.tokens=0

/-- The loop sums its counters and leaves the others as the first snapshot has
them. -/
theorem value_combine (first : MetricsSnapshot) (rest : List MetricsSnapshot)
    (counter : Counter) : (combine first rest).value counter=
      if counter∈summed then ((first::rest).map fun s => s.value counter).sum
      else first.value counter := by
  cases counter <;> rfl

/-- A counter does not depend on when the snapshot is taken. -/
theorem value_snapshot (replica : Replica) (now : ℚ) (counter : Counter) :
    (replica.snapshot now).value counter=(replica.snapshot 0).value counter := by
  cases counter <;> rfl

/-- The counters of a registry that are not summed. -/
theorem unsummed_iff (replica : Replica) : Unsummed replica.metrics ↔
    ∀ counter∉summed, (replica.snapshot 0).value counter=0 := by
  constructor
  · intro h counter hc
    cases counter with
    | requestsReceived => exact h.received
    | requestsRejected => exact h.rejected
    | batchedRequests => exact h.batchedRequests
    | batchesClosedBySize => exact h.sizeClosures
    | batchesClosedByTimeout => exact h.timeoutClosures
    | tokensGenerated => exact h.tokens
    | _ => exact absurd (by decide) hc
  · intro h
    exact ⟨h .requestsReceived (by decide),h .requestsRejected (by decide),
      h .batchedRequests (by decide),h .batchesClosedBySize (by decide),
      h .batchesClosedByTimeout (by decide),h .tokensGenerated (by decide)⟩

section Engine

variable (engine : ReplicatedEngine) (now : ℕ → ℚ) (counter : Counter)

/-- The values of a counter in all replicas. -/
theorem values_snapshots : (engine.snapshots now).map (fun s => s.value counter)=
    engine.replicas.map (fun replica => (replica.snapshot 0).value counter) := by
  refine List.ext_getElem? fun index => ?_
  simp only [ReplicatedEngine.snapshots,List.getElem?_map,List.getElem?_mapIdx,Option.map_map,
    Function.comp_def,value_snapshot _ (now index)]

/-- A counter of the combined snapshot. -/
theorem value_engine : (engine.snapshot now).value counter=
    if counter∈summed then (engine.replicas.map fun r => (r.snapshot 0).value counter).sum
    else (engine.replicas.head engine.nonempty |>.snapshot 0).value counter := by
  have hv := values_snapshots engine now counter
  have hc : (engine.snapshot now).value counter=
      (combine ((engine.snapshots now).headD {}) (engine.snapshots now).tail).value counter := by
    cases counter <;> rfl
  obtain ⟨replicas,hn⟩ := engine
  cases replicas with
  | nil => exact absurd rfl hn
  | cons first rest =>
    have hs : (ReplicatedEngine.mk (first::rest) hn).snapshots now=
        first.snapshot (now 0)::(ReplicatedEngine.mk (first::rest) hn |>.snapshots now).tail := by
      rw [ReplicatedEngine.snapshots,List.mapIdx_cons]
      rfl
    rw [hs] at hc
    rw [hc,List.headD_cons,value_combine,List.tail_cons,←hs,hv,value_snapshot,List.head_cons]

/-- A counter that is summed is a sum, and another one is when the replicas
behind the first have nothing to add. -/
theorem value_sum_iff : (engine.snapshot now).value counter=
    ((engine.snapshots now).map fun s => s.value counter).sum ↔
      (counter∉summed → ∀ replica∈engine.replicas.tail, (replica.snapshot 0).value counter=0) := by
  rw [value_engine,values_snapshots]
  by_cases hs : counter∈summed
  · rw [if_pos hs]
    exact ⟨fun _ hn => absurd hs hn,fun _ => rfl⟩
  · rw [if_neg hs]
    obtain ⟨replicas,hn⟩ := engine
    cases replicas with
    | nil => exact absurd rfl hn
    | cons first rest =>
      simp only [List.head_cons,List.tail_cons,List.map_cons,List.sum_cons,left_eq_add,
        List.sum_eq_zero_iff,List.mem_map,forall_exists_index,and_imp,forall_apply_eq_imp_iff₂]
      exact ⟨fun h _ => h,fun h => h hs⟩

/-- The combined snapshot aggregates the counters exactly when the replicas
behind the first recorded nothing in those that are not summed. -/
theorem aggregates_iff : Aggregates engine now ↔
    ∀ replica∈engine.replicas.tail, Unsummed replica.metrics := by
  constructor
  · intro h replica hr
    refine (unsummed_iff replica).mpr fun counter hc => ?_
    have hm : counter∈counters := by cases counter <;> decide
    exact (value_sum_iff engine now counter).mp (h.sums counter hm) hc replica hr
  · intro h
    have hsums (counter : Counter) : (engine.snapshot now).value counter=
        ((engine.snapshots now).map fun s => s.value counter).sum :=
      (value_sum_iff engine now counter).mpr fun hc replica hr =>
        (unsummed_iff replica).mp (h replica hr) counter hc
    have hlaw (weights : Counter → ℤ) :
        combination counters weights (fun c => (engine.snapshot now).value c)=
          ((engine.snapshots now).map fun s => combination counters weights
            (fun c => s.value c)).sum := by
      have hcast (c : Counter) : ((engine.snapshot now).value c : ℤ)=
          (((engine.snapshots now).map fun s c => (s.value c : ℤ)).map (· c)).sum := by
        rw [hsums,Nat.cast_list_sum,List.map_map,List.map_map]
        rfl
      rw [combination_congr weights (fun c _ => hcast c),combination_sum,List.map_map]
      rfl
    refine ⟨fun counter _ => hsums counter,fun weights hz => ?_,fun weights hz => ?_⟩
    · rw [hlaw]
      exact List.sum_eq_zero (by simpa only [List.mem_map,forall_exists_index,and_imp,
        forall_apply_eq_imp_iff₂] using hz)
    · rw [hlaw]
      exact List.sum_nonneg (by simpa only [List.mem_map,forall_exists_index,and_imp,
        forall_apply_eq_imp_iff₂] using hz)

end Engine

/-- Two replicas that each received and completed one request. -/
def pairEngine : ReplicatedEngine where
  replicas := [{metrics := {received := 1, completed := 1}},
    {metrics := {received := 1, completed := 1}}]
  nonempty := by decide

/-- The pair received as many requests as one of them and completed as many
as both. -/
theorem pairEngine_partial : ¬∀ engine now, Aggregates engine now := by
  intro h
  have hr := (h pairEngine (fun _ => 0)).sums .requestsReceived (by decide)
  exact absurd hr (by decide +kernel)

end CudaForge.ReplicatedSnapshot
