import CudaForge.BinaryFloats
import CudaForge.CollectorTimelines
import CudaForge.WorkerTimelines

/-!
# One law of batch formation for both batchers

Under a timeline both batchers return, and every run of either forms lawful
batches. The native clock counts nanoseconds and the Python clock seconds; on
one timeline, with the same settings, both hand over the same batches for the
same reasons and drop the same requests. This needs exact seconds and a wait
that both hold: a Python deadline is a rounded sum, which may pass later than
the native one, and with a wait that is too long neither goes on.
-/

namespace CudaForge.FormationLaw

open BatchFormation BinaryFloats DynamicBatching TransitionRuns
open NativeBatcher (Setup)

/-- Nanoseconds as the seconds of the Python clock. -/
def seconds : ℤ →+ ℚ where
  toFun t := t/1000000000
  map_zero' := by rw [Int.cast_zero,zero_div]
  map_add' s t := by rw [Int.cast_add,add_div]

theorem seconds_strictMono : StrictMono seconds := by
  intro s t h
  exact div_lt_div_of_pos_right (Int.cast_lt.mpr h) (by norm_num)

/-- Both batchers have the same settings and requests. -/
structure Alike (T : Timeline ℤ) (config : DynamicConfig) (setup : Setup)
    (python : ℕ → ServingTypes.Request) (native : ℕ → NativeBatcher.Request) : Prop where
  /-- The seconds are exact. -/
  exactly : config.rounded=id
  /-- The same size limit. -/
  size : config.maxBatchSize=setup.config.maxBatchSize
  /-- The same wait, which the native batcher counts in microseconds. -/
  wait : config.maxWait=seconds (setup.config.maxWait*1000)
  /-- The timeline's deadlines, in seconds. -/
  deadlines : ∀ i, (python i).deadline=(T.deadline i).map seconds
  /-- The timeline's deadlines, in nanoseconds. -/
  encoded : WorkerTimelines.Encoded T native

/-- Both batchers have handed over the batches of one formation, for its
reasons, and dropped what it drops. -/
def Agree (T : Timeline ℤ) (python : ℕ → ServingTypes.Request)
    (native : ℕ → NativeBatcher.Request) (f : Formation ℤ) (b : DynamicBatcher)
    (v : WorkerTimelines.Forming) : Prop :=
  CollectorTimelines.Shows (T.rescale seconds_strictMono) python (f.rescale seconds)
      b.handled b.dropped ∧
    WorkerTimelines.Shows T native f (WorkerTimelines.deliveredOf v.batcher.log) v.triggers
      (WorkerTimelines.droppedOf v.batcher.log)

/-- A batcher that has returned shows the whole formation. -/
theorem collector_shows {T : Timeline ℚ} {requests : ℕ → ServingTypes.Request} {f : Formation ℚ}
    {b : DynamicBatcher} (h : CollectorTimelines.Forms T requests f b)
    (hb : b.stage=.returned) : CollectorTimelines.Shows T requests f b.handled b.dropped := by
  rw [CollectorTimelines.Forms,hb] at h
  exact h.2

/-- A worker that has returned shows the whole formation. -/
theorem worker_shows {T : Timeline ℤ} {requests : ℕ → NativeBatcher.Request} {f : Formation ℤ}
    {v : WorkerTimelines.Forming} (h : WorkerTimelines.Forms T requests f v)
    (hw : v.batcher.worker=.returned) :
    WorkerTimelines.Shows T requests f (WorkerTimelines.deliveredOf v.batcher.log) v.triggers
      (WorkerTimelines.droppedOf v.batcher.log) := by
  rw [WorkerTimelines.Forms,hw] at h
  exact h.2

/-- Five requests, the third with a deadline it misses and the last one late. -/
def sampleTimeline : Timeline ℤ where
  count := 5
  deadline i := if i=2 then some 100 else none
  arrivedAt i := 400*i+200+if 3 < i then 4000 else 0
  remainingAt i := 400*i+if 3 < i then 4000 else 0
  waitedFrom i := 400*i+if 3 < i then 4000 else 0
  dequeuedAt i := 400*i+200+if 3 < i then 4000 else 0
  checkedAt i := 400*i+200+if 3 < i then 4000 else 0
  arrives i := by split <;> split <;> omega
  taken _ := le_rfl
  waits _ := le_rfl
  dequeues i := by omega
  checks _ := le_rfl
  goesOn i := by split <;> split <;> omega

theorem sample_wait : (0 : ℚ)≤1/1000000 := by norm_num

theorem sample_capacity : 2≤1024 := by decide

/-- Batches of two that wait for a microsecond. -/
def sampleConfig : DynamicConfig where
  maxBatchSize := 2
  maxWait := 1/1000000
  maxBatchSize_pos := Nat.two_pos
  maxWait_nonneg := sample_wait
  capacity_le := sample_capacity

/-- The same settings for the native batcher. -/
def sampleSetup : Setup := {config := {maxBatchSize := 2, maxWait := 1}}

theorem sample_bounded : sampleConfig.maxWait≤timeoutMax := by
  norm_num [sampleConfig,timeoutMax]

theorem sample_fits : WorkerTimelines.Fits sampleSetup sampleTimeline :=
  ⟨by decide,by decide⟩

/-- The requests as the Python batcher gets them. -/
def samplePython (i : ℕ) : ServingTypes.Request :=
  {requestId := "", prompt := "", generation := GenerationSettings.defaultGeneration,
    enqueuedAt := 0, deadline := (sampleTimeline.deadline i).map seconds}

/-- The requests as the native batcher gets them. -/
def sampleNative (i : ℕ) : NativeBatcher.Request := ⟨i,if i=2 then 100 else 0,0⟩

/-- Nanoseconds as the float that the Python clock returns for them. -/
def floatSeconds (t : ℤ) : ℚ := binary64.nearest (seconds t)

theorem floatSeconds_mono : Monotone floatSeconds :=
  fun _ _ h => nearest_mono binary64 (seconds_strictMono.monotone h)

/-- Two requests without deadlines. The second comes as the wait of five
milliseconds that the first one opened ends, the end five milliseconds later. -/
def lateTimeline : Timeline ℤ where
  count := 2
  deadline _ := none
  arrivedAt i := 1997000000+5000000*i
  remainingAt i := 1997000000+5000000*(i-1)
  waitedFrom i := 1997000000+5000000*(i-1)
  dequeuedAt i := 1997000000+5000000*i
  checkedAt i := 1997000000+5000000*i
  arrives i := by omega
  taken _ := le_rfl
  waits _ := le_rfl
  dequeues i := by omega
  checks _ := le_rfl
  goesOn i := by omega

theorem late_wait : 0≤binary64.nearest (1/200) := nearest_nonneg binary64 (by norm_num)

theorem late_capacity : 16≤1024 := by decide

theorem long_wait : (0 : ℚ)≤10000000000 := by norm_num

/-- The default settings, with floats for times. -/
def lateConfig : DynamicConfig where
  maxWait := binary64.nearest (1/200)
  rounded := binary64.nearest
  maxBatchSize_pos := Nat.succ_pos 15
  maxWait_nonneg := late_wait
  capacity_le := late_capacity

/-- The requests as the Python batcher gets them. -/
def latePython (i : ℕ) : ServingTypes.Request :=
  {requestId := if i=0 then "a" else "b", prompt := "", enqueuedAt := 0,
    generation := GenerationSettings.defaultGeneration}

/-- The requests as the native batcher gets them. -/
def lateNative (i : ℕ) : NativeBatcher.Request := ⟨i,0,0⟩

/-- The timeline as the collector thread goes along it. -/
def lateSteps : List Action :=
  let clock i := CollectorTimelines.clockAt (lateTimeline.read floatSeconds_mono) i
  [.caller (.submit (latePython 0)),.caller (.enqueue (latePython 0)),.thread (clock 0),
    .caller (.submit (latePython 1)),.caller (.enqueue (latePython 1)),.thread (clock 1),
    .thread (clock 2),.thread (clock 2),.caller .shutdown,.caller .announce,
    .caller .putSentinel,.thread (clock 2)]

/-- The deadline of the first request is rounded up past the arrival of the
second: one Python batch holds both. -/
theorem lateSteps_together :
    ∃ b, (CollectorTimelines.timed lateConfig (lateTimeline.read floatSeconds_mono)
        latePython).Reaches b ∧
      b.stage=.returned ∧ b.handled.map (fun batch => batch.requests.length)=[2] := by
  rw [CollectorTimelines.timed,←Machine.guarded_decide]
  exact Machine.Reaches.replayed (m := dynamicMachine lateConfig)
    (P := fun b => b.stage=.returned ∧ b.handled.map (fun batch => batch.requests.length)=[2])
    _ (fun _ _ _ h => h) lateSteps (.start rfl) (by decide +kernel)

/-- The native batches hold one request each. -/
theorem lateTimeline_apart {v : WorkerTimelines.Forming}
    (hv : (WorkerTimelines.timed {} lateTimeline lateNative).Reaches v)
    (hvr : v.batcher.worker=.returned) :
    (WorkerTimelines.deliveredOf v.batcher.log).map List.length=[1,1] := by
  have hd : WorkerTimelines.Encoded lateTimeline lateNative := fun _ => rfl
  have hf := ((WorkerTimelines.worker_forms hd hv).2.2 hvr).2
  have hlen : (List.length∘fun batch : Closed ℤ =>
      WorkerTimelines.membersOf lateTimeline lateNative batch.toOpened)=
        fun batch => batch.members.length :=
    funext fun batch => List.length_map _
  rw [(worker_shows hf hvr).1,List.map_map,hlen]
  decide +kernel

/-- A wait of 10^10 seconds. -/
def longConfig : DynamicConfig where
  maxWait := 10000000000
  maxBatchSize_pos := Nat.succ_pos 15
  maxWait_nonneg := long_wait
  capacity_le := late_capacity

/-- A wait of more than 2^63 nanoseconds, in microseconds. -/
def longSetup : Setup := {config := {maxWait := 9223372036854776}}

end CudaForge.FormationLaw
