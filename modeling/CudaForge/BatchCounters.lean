import CudaForge.IngressCounters

/-!
# The counters of the batches of both dynamic batchers

What `record_batch` and the guard around the handler count, beside what became
of the batches: how large each one was, what closed it, and whether its handler
threw. A batch closed by the shutdown is counted as one that was full, and a
handler that throws as one failure, however many requests it was given. So the
counters describe the batches in exactly the runs in which every batch closed
by the shutdown is full and every batch whose handler threw has one request.
-/

namespace CudaForge.BatchCounters

open TransitionRuns Metering ServingMetrics IngressCounters

/-! ## Batches and counters -/

section Accounts

/-- What closed a batch. -/
inductive Reason where
  /-- It was full. -/
  | full
  /-- The deadline anchored at its first request passed. -/
  | deadline
  /-- The end of the queue was found while it was being filled. -/
  | shutdown
  deriving DecidableEq

/-- A batch that the handler was given. -/
structure Handed where
  /-- How many requests it has. -/
  size : ℕ
  /-- What closed it. -/
  reason : Reason
  deriving DecidableEq

/-- What became of the batches. -/
structure Deliveries where
  /-- The batches, in the order in which they were handed over. -/
  handed : List Handed := []
  /-- The sizes of those whose handler threw. -/
  thrown : List ℕ := []
  /-- How often the callback for expired requests threw. -/
  callbacks : ℕ := 0

/-- The counters describe the batches. -/
structure Described (maxSize : ℕ) (metrics : MetricsRegistry) (d : Deliveries) : Prop where
  /-- The batches that reached the size limit. -/
  size : metrics.sizeClosures=d.handed.countP (fun h => h.size=maxSize)
  /-- The batches that the deadline closed. -/
  timeout : metrics.timeoutClosures=d.handed.countP (fun h => h.reason=.deadline)
  /-- The requests in all of them. -/
  requests : metrics.batchedRequests=(d.handed.map Handed.size).sum
  /-- Beside the callbacks, the requests of every batch whose handler threw. -/
  failures : metrics.failed=d.callbacks+d.thrown.sum

/-- What both batchers count. -/
structure Recorded (metrics : MetricsRegistry) (d : Deliveries) : Prop where
  size : metrics.sizeClosures=d.handed.countP (fun h => h.reason≠.deadline)
  timeout : metrics.timeoutClosures=d.handed.countP (fun h => h.reason=.deadline)
  requests : metrics.batchedRequests=(d.handed.map Handed.size).sum
  failures : metrics.failed=d.callbacks+d.thrown.length

/-- What the reasons say of the sizes. -/
structure Sound (maxSize : ℕ) (d : Deliveries) : Prop where
  /-- No batch is empty. -/
  nonempty : ∀ h∈d.handed, 0<h.size
  /-- The deadline closes what is not full. -/
  deadline : ∀ h∈d.handed, h.reason=.deadline → h.size < maxSize
  /-- What is closed for its size is full. -/
  full : ∀ h∈d.handed, h.reason=.full → h.size=maxSize
  /-- The handler was given what it threw at. -/
  thrown : ∀ size∈d.thrown, ∃ h∈d.handed, h.size=size

/-- Every batch that the shutdown closed is full, and every batch whose handler
threw has one request. -/
structure Fits (maxSize : ℕ) (d : Deliveries) : Prop where
  shutdown : ∀ h∈d.handed, h.reason=.shutdown → h.size=maxSize
  thrown : ∀ size∈d.thrown, size=1

/-- The batches counted as full are those that are, and the ones that the
shutdown closed before. -/
theorem countP_full {maxSize : ℕ} {handed : List Handed}
    (hd : ∀ h∈handed, h.reason=.deadline → h.size < maxSize)
    (hf : ∀ h∈handed, h.reason=.full → h.size=maxSize) :
    handed.countP (fun h => h.reason≠.deadline)=handed.countP (fun h => h.size=maxSize)+
      handed.countP (fun h => h.reason=.shutdown ∧ h.size≠maxSize) := by
  induction handed with
  | nil => rfl
  | cons h rest ih =>
    have hr := ih (fun h hm => hd h (List.mem_cons_of_mem _ hm))
      (fun h hm => hf h (List.mem_cons_of_mem _ hm))
    have hd := hd h List.mem_cons_self
    have hf := hf h List.mem_cons_self
    rw [List.countP_cons,List.countP_cons,List.countP_cons,hr]
    cases hreason : h.reason with
    | full => simp [hf hreason,Nat.add_right_comm]
    | deadline => simp [(hd hreason).ne]
    | shutdown =>
      by_cases hs : h.size=maxSize
      · simp [hs,Nat.add_right_comm]
      · simp [hs,Nat.add_assoc]

/-- Batches with requests have more of them in all than there are batches, but
for batches of one. -/
theorem sum_eq_length_iff {sizes : List ℕ} (h : ∀ size∈sizes, 0<size) :
    sizes.sum=sizes.length ↔ ∀ size∈sizes, size=1 := by
  have hsum : sizes.sum=sizes.length+(sizes.map (·-1)).sum := by
    induction sizes with
    | nil => rfl
    | cons size rest ih =>
      have hp := h size List.mem_cons_self
      rw [List.sum_cons,List.map_cons,List.sum_cons,List.length_cons,
        ih (fun size hm => h size (List.mem_cons_of_mem _ hm))]
      omega
  rw [hsum,Nat.add_eq_left,List.sum_eq_zero_iff]
  constructor
  · intro hz size hm
    have hp := h size hm
    have hn := hz (size-1) (List.mem_map_of_mem hm)
    omega
  · intro hone n hm
    obtain ⟨size,hs,rfl⟩ := List.mem_map.mp hm
    have h1 := hone size hs
    omega

/-- The counters describe the batches exactly when no short batch was closed by
the shutdown and no handler threw at more than one request. -/
theorem described_iff {maxSize : ℕ} {metrics : MetricsRegistry} {d : Deliveries}
    (hr : Recorded metrics d) (hs : Sound maxSize d) :
    Described maxSize metrics d ↔ Fits maxSize d := by
  have hfull := countP_full hs.deadline hs.full
  have hpos : ∀ size∈d.thrown, 0<size := by
    intro size hm
    obtain ⟨h,hh,rfl⟩ := hs.thrown size hm
    exact hs.nonempty h hh
  constructor
  · intro hd
    refine ⟨fun h hm hreason => ?_,(sum_eq_length_iff hpos).mp ?_⟩
    · have hz := hr.size.symm.trans hd.size
      rw [hfull,Nat.add_eq_left,List.countP_eq_zero] at hz
      by_contra hn
      exact hz h hm (decide_eq_true ⟨hreason,hn⟩)
    · have hz := hr.failures.symm.trans hd.failures
      omega
  · intro hf
    refine ⟨?_,hr.timeout,hr.requests,?_⟩
    · rw [hr.size,hfull,Nat.add_eq_left,List.countP_eq_zero]
      intro h hm hn
      obtain ⟨hreason,hne⟩ := of_decide_eq_true hn
      exact hne (hf.shutdown h hm hreason)
    · rw [hr.failures,(sum_eq_length_iff hpos).mpr hf.thrown]

/-- The counters that a batch can move. -/
def counted (metrics : MetricsRegistry) : ℕ×ℕ×ℕ×ℕ :=
  (metrics.sizeClosures,metrics.timeoutClosures,metrics.batchedRequests,metrics.failed)

/-- How a recording moves them. -/
def tally : Recording → ℕ×ℕ×ℕ×ℕ
  | .batch size closedByTimeout =>
    (if closedByTimeout then 0 else 1,if closedByTimeout then 1 else 0,size,0)
  | .failed => (0,0,0,1)
  | .received => 0
  | .rejected => 0
  | .expired => 0

/-- What they are to be. -/
def due (d : Deliveries) : ℕ×ℕ×ℕ×ℕ :=
  (d.handed.countP (fun h => h.reason≠.deadline),d.handed.countP (fun h => h.reason=.deadline),
    (d.handed.map Handed.size).sum,d.callbacks+d.thrown.length)

theorem counted_record (metrics : MetricsRegistry) (recording : Recording) :
    counted (metrics.record recording)=counted metrics+tally recording := by
  cases recording with
  | batch size closedByTimeout => cases closedByTimeout <;> rfl
  | _ => rfl

theorem recorded_of_due {metrics : MetricsRegistry} {d : Deliveries} (h : counted metrics=due d) :
    Recorded metrics d := by
  obtain ⟨hsize,h⟩ := Prod.mk.inj h
  obtain ⟨htimeout,h⟩ := Prod.mk.inj h
  obtain ⟨hrequests,hfailures⟩ := Prod.mk.inj h
  exact ⟨hsize,htimeout,hrequests,hfailures⟩

/-- The handler is given a batch, and may throw. -/
def Deliveries.hand (d : Deliveries) (h : Handed) (raises : Bool) : Deliveries :=
  {d with
    handed := d.handed++[h]
    thrown := d.thrown++if raises then [h.size] else []}

/-- The callback for expired requests is called, and may throw. -/
def Deliveries.call (d : Deliveries) (raises : Bool) : Deliveries :=
  {d with callbacks := d.callbacks+if raises then 1 else 0}

/-- What a batch leaves to be counted, when the counters are told of the
deadline what is so. -/
theorem due_hand (d : Deliveries) (h : Handed) (raises closedByTimeout : Bool)
    (ht : closedByTimeout=true ↔ h.reason=.deadline) :
    due (d.hand h raises)=due d+((.batch h.size closedByTimeout::
      (if raises then [Recording.failed] else [])).map tally).sum := by
  have hreason : decide (h.reason=.deadline)=closedByTimeout := by
    cases closedByTimeout with
    | true => exact decide_eq_true (ht.mp rfl)
    | false => exact decide_eq_false (fun he => absurd (ht.mpr he) nofun)
  have hsize : (d.handed++[h]).countP (fun h => h.reason≠.deadline)=
      d.handed.countP (fun h => h.reason≠.deadline)+if closedByTimeout then 0 else 1 := by
    rw [List.countP_append,List.countP_singleton,decide_not,hreason]
    cases closedByTimeout <;> rfl
  have htimeout : (d.handed++[h]).countP (fun h => h.reason=.deadline)=
      d.handed.countP (fun h => h.reason=.deadline)+if closedByTimeout then 1 else 0 := by
    rw [List.countP_append,List.countP_singleton,hreason]
  have hrequests : ((d.handed++[h]).map Handed.size).sum=(d.handed.map Handed.size).sum+h.size := by
    rw [List.map_append,List.sum_append,List.map_singleton,List.sum_singleton]
  rw [due,Deliveries.hand]
  simp only [hsize,htimeout,hrequests,List.length_append]
  cases raises <;> rfl

/-- What a callback leaves to be counted. -/
theorem due_call (d : Deliveries) (raises : Bool) : due (d.call raises)=due d+
    ((Recording.expired::(if raises then [Recording.failed] else [])).map tally).sum := by
  cases raises with
  | true =>
    refine Prod.ext rfl (Prod.ext rfl (Prod.ext rfl ?_))
    exact Nat.add_right_comm d.callbacks 1 d.thrown.length
  | false => rfl

/-- A batch that was closed for its reason. -/
theorem Sound.hand {maxSize : ℕ} {d : Deliveries} {h : Handed} (hs : Sound maxSize d)
    (raises : Bool) (hpos : 0<h.size) (hd : h.reason=.deadline → h.size < maxSize)
    (hf : h.reason=.full → h.size=maxSize) : Sound maxSize (d.hand h raises) := by
  have hmem : ∀ other, other∈(d.hand h raises).handed → other∈d.handed ∨ other=h :=
    fun other hm => (List.mem_append.mp hm).imp_right List.mem_singleton.mp
  refine ⟨?_,?_,?_,?_⟩
  · intro other hm
    rcases hmem other hm with hm | rfl
    · exact hs.nonempty other hm
    · exact hpos
  · intro other hm
    rcases hmem other hm with hm | rfl
    · exact hs.deadline other hm
    · exact hd
  · intro other hm
    rcases hmem other hm with hm | rfl
    · exact hs.full other hm
    · exact hf
  · intro size hm
    rcases List.mem_append.mp hm with hm | hm
    · obtain ⟨other,ho,he⟩ := hs.thrown size hm
      exact ⟨other,List.mem_append_left _ ho,he⟩
    · refine ⟨h,List.mem_append_right _ (List.mem_singleton_self h),?_⟩
      split at hm
      · exact (List.mem_singleton.mp hm).symm
      · exact absurd hm List.not_mem_nil

end Accounts

/-! ## The Python batcher -/

section Python

open ServingTypes SubmissionQueue DynamicBatching DynamicShutdown

/-- The batcher, with what its batches are closed for and come to. -/
structure Handing where
  intake : Intake := {}
  /-- What the batch in hand is closed for, if the thread is about to hand it
  over. -/
  leaving : Reason := .full
  deliveries : Deliveries := {}

/-- What closes a batch, if the next step does: the loop that fills it ends
with room left only when its deadline has passed. -/
def reasonOf (config : DynamicConfig) (before : Reason) : Stage → Reason
  | .filling requests _ => if requests.length<config.maxBatchSize then .deadline else .full
  | .reposting _ => .shutdown
  | _ => before

/-- What a step of the thread comes to. -/
def deliveredBy (onExpired raises : Bool) (leaving : Reason) (before after : DynamicBatcher)
    (d : Deliveries) : Deliveries :=
  match before.stage with
  | .handling batch => d.hand ⟨batch.requests.length,leaving⟩ raises
  | _ => if after.dropped=before.dropped then d else d.call (onExpired&&raises)

/-- What a step does, if it can be taken now. -/
def Handing.step (config : DynamicConfig) (onExpired : Bool) (h : Handing)
    (action : IntakeAction) : Option Handing :=
  (h.intake.step config action).map fun intake =>
    match action with
    | .thread _ raises => {
        intake := intake
        leaving := reasonOf config h.leaving h.intake.batcher.stage
        deliveries := deliveredBy onExpired raises h.leaving h.intake.batcher intake.batcher
          h.deliveries}
    | _ => {h with intake := intake}

/-- The recordings of the Python batcher. -/
def handingMeter (onExpired : Bool) : Meter Handing IntakeAction MetricsRegistry Recording where
  zero := {}
  record := MetricsRegistry.record
  owes before action after := (intakeMeter onExpired).owes before.intake action after.intake

/-- The Python batcher with its metrics. -/
def meteredHanding (config : DynamicConfig) (onExpired : Bool) :
    Machine (Metered Handing MetricsRegistry Recording) (MeterStep IntakeAction) :=
  metered (·={}) (Handing.step config onExpired) (handingMeter onExpired)

variable {config : DynamicConfig} {onExpired raises : Bool} {clock : Clock}
variable {b c : DynamicBatcher} {leaving : Reason}

/-- The batch in hand has requests, no more than it may, and is closed for what
its trigger says. -/
def Held (config : DynamicConfig) (leaving : Reason) : Stage → Prop
  | .filling requests _ => 0<requests.length ∧ requests.length≤config.maxBatchSize
  | .draining requests => 0<requests.length ∧ requests.length≤config.maxBatchSize
  | .reposting requests => 0<requests.length ∧ requests.length≤config.maxBatchSize
  | .handling batch => 0<batch.requests.length ∧
      (batch.trigger=.timeout ↔ leaving=.deadline) ∧
      (leaving=.deadline → batch.requests.length<config.maxBatchSize) ∧
      (leaving=.full → batch.requests.length=config.maxBatchSize)
  | _ => True

/-- A request is dropped, or goes into the batch. -/
theorem dropOr_held {request : ServingTypes.Request} {stage kept : Stage} (hs : b.stage=stage)
    (hb : Held config leaving stage) (hk : Held config leaving kept) :
    Held config leaving (dropOr clock request kept b).stage := by
  rw [dropOr]
  split
  · exact hs.symm ▸ hb
  · exact hk

/-- A step of the thread closes a batch for what its trigger says. -/
theorem collectorStep_held (h : collectorStep config clock b=some c)
    (hh : Held config leaving b.stage) :
    Held config (reasonOf config leaving b.stage) c.stage := by
  unfold collectorStep at h
  cases hst : b.stage with
  | waiting =>
    simp only [hst,waitStep] at h
    split at h
    · cases h
    · rw [←Option.some.inj h]
      trivial
    · rw [←Option.some.inj h]
      exact dropOr_held (b := popped _ b) hst trivial ⟨Nat.one_pos,config.maxBatchSize_pos⟩
  | filling requests deadline =>
    simp only [hst,Option.some.injEq] at h
    rw [hst] at hh
    obtain ⟨hpos,hle⟩ := hh
    rw [←h,fillStep]
    by_cases hroom : requests.length<config.maxBatchSize
    · have htimeout : Held config .deadline (.handling ⟨requests,.timeout⟩) :=
        ⟨hpos,iff_of_true rfl rfl,fun _ => hroom,(by intros; contradiction)⟩
      rw [reasonOf,if_pos hroom,if_pos hroom]
      split
      · exact htimeout
      · split
        · exact htimeout
        · exact ⟨hpos,hle⟩
        · refine dropOr_held (b := popped _ b) hst ⟨hpos,hle⟩ ⟨?_,?_⟩
          · exact List.length_pos_of_ne_nil (by simp)
          · rw [List.length_append]
            exact hroom
    · rw [reasonOf,if_neg hroom,if_neg hroom]
      exact ⟨hpos,iff_of_false (by intro hs; cases hs) (by intro hs; cases hs),
        (by intro hs; cases hs),fun _ => Nat.le_antisymm hle (Nat.not_lt.mp hroom)⟩
  | draining requests =>
    simp only [hst,Option.some.injEq] at h
    rw [hst] at hh
    rw [←h,drainStep]
    split
    · next hroom =>
      split
      · exact hh
      · exact hh
      · refine dropOr_held (b := popped _ b) hst hh ⟨?_,?_⟩
        · exact List.length_pos_of_ne_nil (by simp)
        · rw [List.length_append]
          exact hroom
    · exact hh
  | reposting requests =>
    simp only [hst,Option.some.injEq] at h
    rw [hst] at hh
    have hshut : Held config .shutdown (.handling ⟨requests,.shutdown⟩) :=
      ⟨hh.1,iff_of_false (by intro hs; cases hs) (by intro hs; cases hs),
        (by intro hs; cases hs),(by intro hs; cases hs)⟩
    rw [←h,repostStep]
    split <;> exact hshut
  | handling batch =>
    simp only [hst,Option.some.injEq] at h
    rw [←h]
    trivial
  | returned => simp only [hst,reduceCtorEq] at h

/-- Between two batches the thread drops at most one request a step. -/
theorem collectorStep_drops (h : collectorStep config clock b=some c)
    (hn : ∀ batch, b.stage≠.handling batch) : c.handled=b.handled ∧
      (c.dropped=b.dropped ∨ ∃ request, c.dropped=b.dropped++[request]) := by
  cases collectorStep_collected h with
  | drops hq => exact ⟨rfl,.inr ⟨_,rfl⟩⟩
  | keeps hq hk => exact ⟨rfl,.inl rfl⟩
  | moves hq hk => exact ⟨rfl,.inl rfl⟩
  | @hands batch hs => exact absurd hs (hn batch)

/-- The thread hands its batch over. -/
theorem collectorStep_hands {batch : DynamicBatching.Batch} (hs : b.stage=.handling batch)
    (h : collectorStep config clock b=some c) :
    c={b with stage := .waiting, handled := b.handled++[batch]} := by
  simp only [collectorStep,hs,Option.some.injEq] at h
  exact h.symm

/-- A step of the thread leaves to be recorded what it delivers. -/
theorem due_thread (d : Deliveries) (h : collectorStep config clock b=some c)
    (hh : Held config leaving b.stage) :
    due (deliveredBy onExpired raises leaving b c d)=
      due d+((threadOwes onExpired raises b c).map tally).sum := by
  by_cases hs : ∃ batch, b.stage=.handling batch
  · obtain ⟨batch,hs⟩ := hs
    rw [hs] at hh
    rw [collectorStep_hands hs h,deliveredBy,hs]
    simp only
    rw [due_hand d ⟨batch.requests.length,leaving⟩ raises (decide (batch.trigger=.timeout))
      (decide_eq_true_iff.trans hh.2.1)]
    rw [threadOwes]
    simp only [List.drop_length,List.flatMap_nil,List.nil_append,List.drop_left,
      List.flatMap_singleton]
  · obtain ⟨hhandled,hdropped⟩ := collectorStep_drops h (fun batch hb => hs ⟨batch,hb⟩)
    have hd : deliveredBy onExpired raises leaving b c d=
        if c.dropped=b.dropped then d else d.call (onExpired&&raises) := by
      unfold deliveredBy
      split
      · next batch hb => exact absurd ⟨batch,hb⟩ hs
      · rfl
    rw [hd,threadOwes,hhandled,List.drop_length,List.flatMap_nil,List.append_nil]
    rcases hdropped with he | ⟨request,he⟩
    · rw [if_pos he,he,List.drop_length]
      exact (add_zero _).symm
    · have hne : c.dropped≠b.dropped := by
        rw [he]
        exact fun hs => absurd (List.append_cancel_left (hs.trans (List.append_nil _).symm))
          (by intro hs; cases hs)
      rw [if_neg hne,he,List.drop_left,List.flatMap_singleton,due_call]

/-- What a caller leaves to be recorded is about no batch. -/
theorem callerOwes_tally (stopping : Bool) (call : SubmissionQueue.Call) :
    ((callerOwes stopping call).map tally).sum=0 := by
  cases call <;> cases stopping <;> rfl

/-- The batch in hand and the deliveries are as the thread's stage says. -/
structure Keeps (config : DynamicConfig) (h : Handing) : Prop where
  held : Held config h.leaving h.intake.batcher.stage
  sound : Sound config.maxBatchSize h.deliveries

/-- Every step keeps it so. -/
theorem Keeps.step {h j : Handing} {action : IntakeAction} (hk : Keeps config h)
    (hs : h.step config onExpired action=some j) : Keeps config j := by
  obtain ⟨intake,hi,rfl⟩ := Option.map_eq_some_iff.mp hs
  cases action with
  | caller call =>
    obtain ⟨batcher,hb,rfl⟩ := Option.map_eq_some_iff.mp hi
    obtain ⟨ingress,_,rfl⟩ := Option.map_eq_some_iff.mp hb
    exact ⟨hk.held,hk.sound⟩
  | misput request timeout =>
    obtain ⟨_,hj⟩ := Option.ite_none_right_eq_some.mp hi
    rw [←Option.some.inj hj]
    exact ⟨hk.held,hk.sound⟩
  | misclose timeout =>
    obtain ⟨_,hj⟩ := Option.ite_none_right_eq_some.mp hi
    rw [←Option.some.inj hj]
    exact ⟨hk.held,hk.sound⟩
  | thread clock raises =>
    have hheld : Held config (reasonOf config h.leaving h.intake.batcher.stage)
        intake.batcher.stage := by
      rcases thread_cases hi with ⟨rfl,_⟩ | ⟨batcher,hb,rfl⟩
      · trivial
      · exact collectorStep_held hb hk.held
    refine ⟨hheld,?_⟩
    change Sound _ (deliveredBy _ _ _ _ _ _)
    unfold deliveredBy
    split
    · next batch hst =>
      have hh := hk.held
      rw [hst] at hh
      exact hk.sound.hand raises hh.1 hh.2.2.1 hh.2.2.2
    · split
      · exact hk.sound
      · exact ⟨hk.sound.nonempty,hk.sound.deadline,hk.sound.full,hk.sound.thrown⟩

/-- The counters of the Python batcher, when every recording is made. -/
theorem handing_recorded {m : Metered Handing MetricsRegistry Recording}
    (h : (meteredHanding config onExpired).Reaches m) (ho : m.owed=[]) :
    Recorded m.counters m.state.deliveries ∧ Sound config.maxBatchSize m.state.deliveries := by
  have hkeeps : ∀ {state : Handing}, (system (·={}) (Handing.step config onExpired)).Reaches state →
      Keeps config state := by
    intro state hr
    refine hr.invariant (P := Keeps config) ?_ (fun _ _ _ hk hs => hk.step hs)
    rintro _ rfl
    exact ⟨trivial,nofun,nofun,nofun,nofun⟩
  refine ⟨recorded_of_due ?_,(hkeeps (reaches_state h)).sound⟩
  refine audit_settled counted tally (fun h => due h.deliveries) counted_record
    (by rintro _ rfl; rfl) ?_ h ho
  intro state action after hr hs
  obtain ⟨intake,hi,rfl⟩ := Option.map_eq_some_iff.mp hs
  cases action with
  | caller call =>
    change due _=due _+((callerOwes _ call).map tally).sum
    rw [callerOwes_tally,add_zero]
  | misput request timeout => exact (add_zero _).symm
  | misclose timeout => exact (add_zero _).symm
  | thread clock raises =>
    rcases thread_cases hi with ⟨rfl,requests,deadline,hst⟩ | ⟨batcher,hb,rfl⟩
    · change due (deliveredBy _ _ _ _ _ _)=due _+((threadOwes _ _ _ _).map tally).sum
      have hsame : state.intake.die.batcher.dropped=state.intake.batcher.dropped := rfl
      rw [threadOwes_die,deliveredBy,hst]
      simp only [if_pos hsame,List.map_nil,List.sum_nil,add_zero]
    · exact due_thread state.deliveries hb (hkeeps hr).held

end Python

/-! ## The C++ batcher -/

section Native

open ConcurrentQueue NativeBatcher NativeShutdown

/-- The batcher, with what its batches are closed for and come to. -/
structure NativeHanding where
  batcher : Batcher := {}
  /-- What the batch in hand is closed for, if the worker is about to hand it
  over. -/
  leaving : Reason := .full
  deliveries : Deliveries := {}

/-- What closes a batch, if the next step does: the loop that fills it ends
with room left only when its deadline has passed. -/
def nativeReason (setup : Setup) (before : Reason) : NativeBatcher.Worker → Reason
  | .filling batch _ => if batch.length<setup.config.maxBatchSize then .deadline else .full
  | .waiting _ _ => .deadline
  | .draining _ => .shutdown
  | _ => before

/-- What a step of the worker comes to; the handler throws at the batch that
was handed over last. -/
def workedBy (setup : Setup) (e : Env) (leaving : Reason) (before after : Batcher)
    (d : Deliveries) : Deliveries :=
  match before.worker with
  | .collected batch _ => if batch=[] then d else d.hand ⟨batch.length,leaving⟩ false
  | .handling => {d with
      thrown := d.thrown++if e.raises then (d.handed.getLast?.map Handed.size).toList else []}
  | _ => if after.log=before.log then d else d.call (setup.onExpired&&e.raises)

/-- What a step does, if it can be taken now. -/
def NativeHanding.step (setup : Setup) (h : NativeHanding) (action : NativeBatcher.Action) :
    Option NativeHanding :=
  (h.batcher.step setup action).map fun batcher =>
    match action with
    | .work e => {
        batcher := batcher
        leaving := nativeReason setup h.leaving h.batcher.worker
        deliveries := workedBy setup e h.leaving h.batcher batcher h.deliveries}
    | _ => {h with batcher := batcher}

/-- The recordings of the C++ batcher. -/
def nativeHandingMeter (setup : Setup) :
    Meter NativeHanding NativeBatcher.Action MetricsRegistry Recording where
  zero := {}
  record := MetricsRegistry.record
  owes before action after := (nativeMeter setup).owes before.batcher action after.batcher

/-- A new batcher. -/
def madeHanding (setup : Setup) (h : NativeHanding) : Prop :=
  ∃ b, NativeBatcher.make setup=.ok b ∧ h={batcher := b}

/-- The C++ batcher with its metrics. -/
def meteredNativeHanding (setup : Setup) :
    Machine (Metered NativeHanding MetricsRegistry Recording) (MeterStep NativeBatcher.Action) :=
  metered (madeHanding setup) (NativeHanding.step setup) (nativeHandingMeter setup)

variable {setup : Setup} {e : Env} {b c : Batcher} {leaving : Reason} {d : Deliveries}

/-- The batch in hand has requests, no more than it may, and is closed for what
its trigger says; the handler was given one. -/
def NativeHeld (setup : Setup) (leaving : Reason) (d : Deliveries) :
    NativeBatcher.Worker → Prop
  | .filling batch _ => 0<batch.length ∧ batch.length ≤ setup.config.maxBatchSize
  | .waiting batch _ => 0<batch.length ∧ batch.length<setup.config.maxBatchSize
  | .draining batch => 0<batch.length ∧ batch.length ≤ setup.config.maxBatchSize
  | .collected batch trigger => batch≠[] → (trigger=.timeout ↔ leaving=.deadline) ∧
      (leaving=.deadline → batch.length<setup.config.maxBatchSize) ∧
      (leaving=.full → batch.length=setup.config.maxBatchSize)
  | .handling => d.handed≠[]
  | _ => True

/-- A request is dropped, or goes into the batch. -/
theorem take_held {entry : Entry} {dropped kept : NativeBatcher.Worker}
    (hd : NativeHeld setup leaving d dropped) (hk : NativeHeld setup leaving d kept) :
    NativeHeld setup leaving d (b.take setup e entry dropped kept).worker := by
  rw [Batcher.take]
  split
  · exact hd
  · exact hk

/-- At most one request is dropped. -/
theorem take_log {entry : Entry} {dropped kept : NativeBatcher.Worker} :
    (b.take setup e entry dropped kept).log=b.log ∨
      ∃ other, (b.take setup e entry dropped kept).log=b.log++[.dropped other] := by
  rw [Batcher.take]
  split
  · exact .inr ⟨_,rfl⟩
  · exact .inl rfl

/-- The end of `collect_batch` says what closed the batch. -/
theorem finish_held {batch : List Entry} {trigger : NativeBatcher.BatchTrigger} {reason : Reason}
    (ht : batch.length<setup.config.maxBatchSize → (trigger=.timeout ↔ reason=.deadline))
    (hr : reason=.deadline → batch.length<setup.config.maxBatchSize)
    (hf : reason=.full → batch.length=setup.config.maxBatchSize) :
    NativeHeld setup reason d (finish setup batch trigger) := by
  intro _
  refine ⟨?_,hr,hf⟩
  by_cases hfull : setup.config.maxBatchSize≤batch.length
  · rw [if_pos hfull]
    refine iff_of_false nofun (fun hreason => ?_)
    exact absurd (hr hreason) (Nat.not_lt.mpr hfull)
  · rw [if_neg hfull]
    exact ht (Nat.not_le.mp hfull)

/-- A worker that takes requests. -/
def collects : NativeBatcher.Worker → Bool
  | .popping => true
  | .filling _ _ => true
  | .waiting _ _ => true
  | .draining _ => true
  | _ => false

/-- A step of a worker that takes requests drops at most one, and closes a batch
for what its trigger says. -/
theorem work_collects (hm : 0<setup.config.maxBatchSize) (hc : collects b.worker=true)
    (h : b.work setup e=some c) (hh : NativeHeld setup leaving d b.worker) :
    (c.log=b.log ∨ ∃ entry, c.log=b.log++[.dropped entry]) ∧
      NativeHeld setup (nativeReason setup leaving b.worker) d c.worker := by
  rw [Batcher.work] at h
  cases hw : b.worker with
  | popping =>
    simp only [hw] at h
    split at h
    · cases h
    · split at h
      · rw [←Option.some.inj h]
        exact ⟨take_log,take_held trivial ⟨Nat.one_pos,hm⟩⟩
      · rw [←Option.some.inj h]
        exact ⟨.inl rfl,fun hn => absurd rfl hn⟩
  | filling batch deadline =>
    simp only [hw] at h
    rw [hw] at hh
    obtain ⟨hpos,hle⟩ := hh
    rw [nativeReason]
    by_cases hroom : batch.length<setup.config.maxBatchSize
    · rw [if_pos hroom] at h ⊢
      split at h
      · rw [←Option.some.inj h]
        exact ⟨.inl rfl,finish_held (fun _ => iff_of_true rfl rfl) (fun _ => hroom)
          (by intros; contradiction)⟩
      · rw [←Option.some.inj h]
        exact ⟨.inl rfl,hpos,hroom⟩
    · rw [if_neg hroom] at h ⊢
      rw [←Option.some.inj h]
      exact ⟨.inl rfl,finish_held (fun hlt => absurd hlt hroom) (by intros; contradiction)
        (fun _ => Nat.le_antisymm hle (Nat.not_lt.mp hroom))⟩
  | waiting batch deadline =>
    simp only [hw] at h
    rw [hw] at hh
    obtain ⟨hpos,hroom⟩ := hh
    have hmore : ∀ entry : Entry, NativeHeld setup .deadline d
        (.filling (batch++[entry]) deadline) := by
      refine fun entry => ⟨?_,?_⟩
      · rw [List.length_append]
        exact Nat.succ_pos _
      · rw [List.length_append]
        exact hroom
    split at h
    · cases h
    · split at h
      · rw [←Option.some.inj h]
        exact ⟨take_log,take_held ⟨hpos,hroom.le⟩ (hmore _)⟩
      · rw [←Option.some.inj h]
        exact ⟨.inl rfl,hpos,hroom.le⟩
      · rw [←Option.some.inj h]
        exact ⟨.inl rfl,finish_held (fun _ => iff_of_true rfl rfl) (fun _ => hroom)
          (by intros; contradiction)⟩
  | draining batch =>
    simp only [hw] at h
    rw [hw] at hh
    obtain ⟨hpos,hle⟩ := hh
    have hdone : NativeHeld setup .shutdown d (finish setup batch .shutdown) :=
      finish_held (fun _ => iff_of_false (by intro hs; cases hs) (by intro hs; cases hs))
        (by intro hs; cases hs) (by intro hs; cases hs)
    split at h
    · next hroom =>
      split at h
      · rw [←Option.some.inj h]
        refine ⟨take_log,take_held ⟨hpos,hle⟩ ⟨?_,?_⟩⟩
        · rw [List.length_append]
          exact Nat.succ_pos _
        · rw [List.length_append]
          exact hroom
      · rw [←Option.some.inj h]
        exact ⟨.inl rfl,hdone⟩
    · rw [←Option.some.inj h]
      exact ⟨.inl rfl,hdone⟩
  | collected batch trigger =>
    rw [hw] at hc
    cases hc
  | handling =>
    rw [hw] at hc
    cases hc
  | returned =>
    rw [hw] at hc
    cases hc

theorem NativeHeld.congr {other : Deliveries} {worker : NativeBatcher.Worker}
    (h : NativeHeld setup leaving d worker) (ho : other.handed=d.handed) :
    NativeHeld setup leaving other worker := by
  cases worker with
  | handling =>
    change other.handed≠[]
    rw [ho]
    exact h
  | _ => exact h

/-- The batch in hand and the deliveries are as the worker's place says. -/
structure NativeKeeps (setup : Setup) (h : NativeHanding) : Prop where
  pos : 0<setup.config.maxBatchSize
  held : NativeHeld setup h.leaving h.deliveries h.batcher.worker
  sound : Sound setup.config.maxBatchSize h.deliveries

/-- Taking requests, the worker leaves to be recorded what it drops. -/
theorem work_drops (hm : 0<setup.config.maxBatchSize) (hc : collects b.worker=true)
    (h : b.work setup e=some c) (hh : NativeHeld setup leaving d b.worker) :
    NativeHeld setup (nativeReason setup leaving b.worker) (workedBy setup e leaving b c d)
        c.worker ∧
      (workedBy setup e leaving b c d).handed=d.handed ∧
      (workedBy setup e leaving b c d).thrown=d.thrown ∧
      due (workedBy setup e leaving b c d)=due d+((workOwes setup e b c).map tally).sum := by
  obtain ⟨hlog,hheld⟩ := work_collects hm hc h hh
  have hd : workedBy setup e leaving b c d=
      if c.log=b.log then d else d.call (setup.onExpired&&e.raises) := by
    unfold workedBy
    split
    · next hw =>
      rw [hw] at hc
      cases hc
    · next hw =>
      rw [hw] at hc
      cases hc
    · rfl
  have hn : ¬(b.worker=.handling ∧ e.raises=true) := by
    rintro ⟨hw,_⟩
    rw [hw] at hc
    cases hc
  have howes : ∃ timedOut, workOwes setup e b c=
      (c.log.drop b.log.length).flatMap (outcomeOwes setup e timedOut) := by
    rw [workOwes,if_neg hn,List.append_nil]
    exact ⟨_,rfl⟩
  obtain ⟨timedOut,howes⟩ := howes
  rw [hd,howes]
  rcases hlog with hl | ⟨entry,hl⟩
  · rw [if_pos hl,hl,List.drop_length]
    exact ⟨hheld,rfl,rfl,(add_zero _).symm⟩
  · have hne : c.log≠b.log := by
      rw [hl]
      exact fun hs => absurd (List.append_cancel_left (hs.trans (List.append_nil _).symm))
        (by intro hs; cases hs)
    rw [if_neg hne,hl,List.drop_left,List.flatMap_singleton]
    exact ⟨hheld.congr rfl,rfl,rfl,due_call d _⟩

/-- What a step of the worker keeps, and what it leaves to be recorded. -/
theorem work_delivers (hm : 0<setup.config.maxBatchSize) (h : b.work setup e=some c)
    (hh : NativeHeld setup leaving d b.worker) (hs : Sound setup.config.maxBatchSize d) :
    NativeHeld setup (nativeReason setup leaving b.worker) (workedBy setup e leaving b c d)
        c.worker ∧
      Sound setup.config.maxBatchSize (workedBy setup e leaving b c d) ∧
      due (workedBy setup e leaving b c d)=due d+((workOwes setup e b c).map tally).sum := by
  by_cases hc : collects b.worker=true
  · obtain ⟨hheld,hhanded,hthrown,hdue⟩ := work_drops hm hc h hh
    refine ⟨hheld,⟨?_,?_,?_,?_⟩,hdue⟩
    · rw [hhanded]
      exact hs.nonempty
    · rw [hhanded]
      exact hs.deadline
    · rw [hhanded]
      exact hs.full
    · rw [hhanded,hthrown]
      exact hs.thrown
  · cases hw : b.worker with
    | collected batch trigger =>
      rw [hw] at hh
      rw [Batcher.work,hw] at h
      simp only at h
      by_cases hn : batch=[]
      · rw [if_pos hn] at h
        rw [←Option.some.inj h]
        simp only [workedBy,workOwes,hw,if_pos hn,List.drop_length]
        exact ⟨trivial,hs,(add_zero _).symm⟩
      · rw [if_neg hn] at h
        obtain ⟨ht,hd,hf⟩ := hh hn
        rw [←Option.some.inj h]
        simp only [workedBy,workOwes,hw,if_neg hn,List.drop_left]
        refine ⟨?_,hs.hand false (List.length_pos_of_ne_nil hn) hd hf,?_⟩
        · exact List.append_ne_nil_of_right_ne_nil _ (List.cons_ne_nil _ _)
        · rw [due_hand d ⟨batch.length,leaving⟩ false (decide (trigger=.timeout))
            (decide_eq_true_iff.trans ht)]
          rfl
    | handling =>
      rw [hw] at hh
      rw [Batcher.work,hw] at h
      simp only at h
      rw [←Option.some.inj h]
      obtain ⟨last,hlast⟩ := Option.isSome_iff_exists.mp (List.getLast?_isSome.mpr hh)
      simp only [workedBy,workOwes,hw,hlast,List.drop_length]
      refine ⟨trivial,⟨hs.nonempty,hs.deadline,hs.full,?_⟩,?_⟩
      · intro size hm
        rcases List.mem_append.mp hm with hm | hm
        · exact hs.thrown size hm
        · split at hm
          · exact ⟨last,List.mem_of_getLast? hlast,(List.mem_singleton.mp hm).symm⟩
          · exact absurd hm List.not_mem_nil
      · cases hr : e.raises with
        | true =>
          refine Prod.ext rfl (Prod.ext rfl (Prod.ext rfl ?_))
          change d.callbacks+(d.thrown++[last.size]).length=_
          rw [List.length_append]
          rfl
        | false =>
          refine Prod.ext rfl (Prod.ext rfl (Prod.ext rfl ?_))
          change d.callbacks+(d.thrown++[]).length=_
          rw [List.append_nil]
          rfl
    | returned =>
      rw [Batcher.work,hw] at h
      cases h
    | popping => exact absurd (congrArg collects hw) hc
    | filling batch deadline => exact absurd (congrArg collects hw) hc
    | waiting batch deadline => exact absurd (congrArg collects hw) hc
    | draining batch => exact absurd (congrArg collects hw) hc

/-- No other step moves the worker. -/
theorem step_worker {action : NativeBatcher.Action} (h : b.step setup action=some c)
    (hw : ∀ e, action≠.work e) : c.worker=b.worker := by
  cases action with
  | submit request => rw [←Option.some.inj h]
  | trySubmit request => rw [←Option.some.inj h]
  | offer ticket =>
    simp only [Batcher.step] at h
    split at h
    · obtain ⟨answer,_,rfl⟩ := Option.map_eq_some_iff.mp h
      rfl
    · rw [←Option.some.inj h]
      rfl
    · cases h
  | answer ticket =>
    simp only [Batcher.step] at h
    split at h
    · rw [←Option.some.inj h]
    · cases h
  | shutdown =>
    simp only [Batcher.step] at h
    split at h <;> rw [←Option.some.inj h]
  | close =>
    obtain ⟨_,h⟩ := Option.ite_none_right_eq_some.mp h
    rw [←Option.some.inj h]
  | join =>
    obtain ⟨_,h⟩ := Option.ite_none_right_eq_some.mp h
    rw [←Option.some.inj h]
  | work e => exact absurd rfl (hw e)

/-- No other step leaves anything about batches to be recorded. -/
theorem owes_tally {action : NativeBatcher.Action} (setup : Setup) (hw : ∀ e, action≠.work e)
    (b c : Batcher) :
    (((nativeMeter setup).owes b action c).map tally).sum=0 := by
  cases action with
  | offer ticket =>
    simp only [nativeMeter]
    split
    · rw [statusOwes]
      split <;> rfl
    · rfl
  | work e => exact absurd rfl (hw e)
  | _ => rfl

/-- Every step keeps the batch in hand and the deliveries so, and leaves to be
recorded what it delivers. -/
theorem NativeKeeps.step {h j : NativeHanding} {action : NativeBatcher.Action}
    (hk : NativeKeeps setup h) (hs : h.step setup action=some j) :
    NativeKeeps setup j ∧ due j.deliveries=due h.deliveries+
      (((nativeHandingMeter setup).owes h action j).map tally).sum := by
  obtain ⟨batcher,hb,rfl⟩ := Option.map_eq_some_iff.mp hs
  by_cases hw : ∃ e, action=.work e
  · obtain ⟨e,rfl⟩ := hw
    obtain ⟨hheld,hsound,hdue⟩ := work_delivers hk.pos hb hk.held hk.sound
    exact ⟨⟨hk.pos,hheld,hsound⟩,hdue⟩
  · have hsame := step_worker hb (fun e he => hw ⟨e,he⟩)
    have howes := owes_tally setup (fun e he => hw ⟨e,he⟩) h.batcher batcher
    have hnext : ∀ j, j={h with batcher := batcher} → NativeKeeps setup j ∧
        due j.deliveries=due h.deliveries+
          (((nativeMeter setup).owes h.batcher action j.batcher).map tally).sum := by
      rintro _ rfl
      refine ⟨⟨hk.pos,?_,hk.sound⟩,?_⟩
      · rw [hsame]
        exact hk.held
      · rw [howes,add_zero]
    cases action with
    | work e => exact absurd ⟨e,rfl⟩ hw
    | _ => exact hnext _ rfl

/-- The counters of the C++ batcher, when every recording is made. -/
theorem native_recorded {m : Metered NativeHanding MetricsRegistry Recording}
    (h : (meteredNativeHanding setup).Reaches m) (ho : m.owed=[]) :
    Recorded m.counters m.state.deliveries ∧
      Sound setup.config.maxBatchSize m.state.deliveries := by
  have hmade : ∀ state, madeHanding setup state → state={} ∧ 0<setup.config.maxBatchSize := by
    rintro _ ⟨b,hb,rfl⟩
    obtain ⟨rfl,hm⟩ := made_eq hb
    exact ⟨rfl,hm⟩
  have hkeeps : ∀ {state : NativeHanding},
      (system (madeHanding setup) (NativeHanding.step setup)).Reaches state →
        NativeKeeps setup state := by
    intro state hr
    refine hr.invariant (P := NativeKeeps setup) ?_ (fun _ _ _ hk hs => (hk.step hs).1)
    intro state hs
    obtain ⟨rfl,hm⟩ := hmade state hs
    exact ⟨hm,trivial,nofun,nofun,nofun,nofun⟩
  refine ⟨recorded_of_due ?_,(hkeeps (reaches_state h)).sound⟩
  refine audit_settled counted tally (fun h => due h.deliveries) counted_record ?_ ?_ h ho
  · intro state hs
    rw [(hmade state hs).1]
    rfl
  · exact fun _ _ _ hr hs => ((hkeeps hr).step hs).2

end Native

/-! ## Both batchers -/

section Runs

open DynamicShutdown

theorem wide_size : 0 < 3 := by decide

theorem wide_wait : (0 : ℚ)≤1 := by decide

theorem wide_capacity : 3≤3 := by decide

/-- Batches of three. -/
def wideConfig : DynamicBatching.DynamicConfig := ⟨3,1,3,id,wide_size,wide_wait,wide_capacity⟩

/-- Two requests are in a batch when the sentinel is read, and the handler
throws at it. -/
def shortIntake : List (MeterStep IntakeAction) :=
  [.act (.caller (.submit (plainRequest "a"))),.act (.caller (.submit (plainRequest "b"))),
    .act (.caller (.enqueue (plainRequest "a"))),.act (.caller (.enqueue (plainRequest "b"))),
    .act (.caller .shutdown),.act (.caller .announce),.act (.caller .putSentinel),
    .act (.thread {} false),.act (.thread {} false),.act (.thread {} false),
    .act (.thread {} false),.act (.thread {} false),.act (.thread {} true),
    .record 0,.record 0,.record 0,.record 0]

/-- The same batches for the C++ batcher. -/
def wideSetup : NativeBatcher.Setup := {config := {maxBatchSize := 3, queueCapacity := 3}}

/-- The same run of the C++ batcher. -/
def shortNative : List (MeterStep NativeBatcher.Action) :=
  [.act (.submit ⟨0,0,0⟩),.act (.submit ⟨1,0,0⟩),.act (.offer 0),.act (.offer 1),
    .act .shutdown,.act .close,.act (.work {}),.act (.work {}),.act (.work {}),.act (.work {}),
    .act (.work {}),.act (.work {}),.act (.work {}),.act (.work {raises := true}),
    .record 0,.record 0,.record 0,.record 0]

end Runs

end CudaForge.BatchCounters
