import CudaForge.BatchFormation
import CudaForge.DynamicBatching

/-!
# The collector thread along a timeline

The Python batcher under a timeline: its callers put the timeline's requests
and then the sentinel, which finds room; the thread reads the timeline's
clock; and a timed wait, no longer than the interpreter allows, returns an item
exactly when the next one comes before it ends. Where sums and differences of
times are exact, every such run forms the timeline's batches.
-/

namespace CudaForge.CollectorTimelines

open ServingTypes SubmissionQueue DynamicBatching BatchFormation TransitionRuns

/-- How many requests the thread has taken. -/
def served (b : DynamicBatcher) : ℕ :=
  b.ingress.accepted.length-(requestsIn b.ingress.queue).length

/-- The timeout of the wait for request `i`. -/
def remaining (config : DynamicConfig) (T : Timeline ℚ) (i : ℕ) (deadline : ℚ) : ℚ :=
  config.rounded (deadline-T.remainingAt i)

/-- A timed wait for request `i` takes its timeout, and finds the queue empty
exactly when nothing comes before it ends. -/
def Waits (config : DynamicConfig) (T : Timeline ℚ) (i : ℕ) (queue : List (Option Request)) :
    Stage → Prop
  | .filling batch deadline =>
    batch.length<config.maxBatchSize → 0<remaining config T i deadline →
      remaining config T i deadline≤timeoutMax ∧
        (queue≠[] ↔ T.arrivedAt i<T.waitedFrom i+remaining config T i deadline)
  | _ => True

instance (config : DynamicConfig) (T : Timeline ℚ) (i : ℕ) (queue : List (Option Request)) :
    (stage : Stage) → Decidable (Waits config T i queue stage)
  | .filling _ _ => inferInstanceAs (Decidable (_ → _ → _))
  | .waiting => inferInstanceAs (Decidable True)
  | .draining _ => inferInstanceAs (Decidable True)
  | .reposting _ => inferInstanceAs (Decidable True)
  | .handling _ => inferInstanceAs (Decidable True)
  | .returned => inferInstanceAs (Decidable True)

/-- The step happens as the timeline says. -/
def Follows (config : DynamicConfig) (T : Timeline ℚ) (requests : ℕ → Request)
    (b : DynamicBatcher) : Action → Prop
  | .caller (.enqueue request) =>
    b.ingress.accepted.length<T.count ∧ request=requests b.ingress.accepted.length
  | .caller .putSentinel => b.ingress.accepted.length=T.count
  | .caller .giveUp => False
  | .caller _ => True
  | .thread clock =>
    (clock.now=T.dequeuedAt (served b) ∧ clock.checkedAt=T.checkedAt (served b) ∧
      clock.remainingAt=T.remainingAt (served b)) ∧
      Waits config T (served b) b.ingress.queue b.stage

instance (config : DynamicConfig) (T : Timeline ℚ) (requests : ℕ → Request)
    (b : DynamicBatcher) : (action : Action) → Decidable (Follows config T requests b action)
  | .caller (.enqueue _) => inferInstanceAs (Decidable (_ ∧ _))
  | .caller .putSentinel => inferInstanceAs (Decidable (_=_))
  | .caller .giveUp => inferInstanceAs (Decidable False)
  | .caller (.submit _) => inferInstanceAs (Decidable True)
  | .caller (.refuse _) => inferInstanceAs (Decidable True)
  | .caller .shutdown => inferInstanceAs (Decidable True)
  | .caller .announce => inferInstanceAs (Decidable True)
  | .thread _ => inferInstanceAs (Decidable (_ ∧ _))

/-- The reason for closing a batch, under the batcher's name. -/
def triggerOf : Closing → BatchTrigger
  | .size => .maxSize
  | .timeout => .timeout
  | .shutdown => .shutdown

section Shown

variable (T : Timeline ℚ) (requests : ℕ → Request)

/-- A request as the thread has stamped it. -/
def shown (i : ℕ) : Request := {requests i with dequeuedAt := some (T.dequeuedAt i)}

/-- A closed batch as the handler gets it. -/
def batchOf (batch : Closed ℚ) : Batch :=
  ⟨batch.members.map (shown T requests),triggerOf batch.closing⟩

/-- The batches and drops are these. -/
def Shows (f : Formation ℚ) (handled : List Batch) (dropped : List Request) : Prop :=
  handled=f.closed.map (batchOf T requests) ∧ dropped=f.dropped.map (shown T requests)

/-- The batch in hand is the one being filled. -/
def Fills (f : Formation ℚ) (batch : List Request) (opened : Opened ℚ) : Prop :=
  f.opened=some opened ∧ batch=opened.members.map (shown T requests)

/-- The batcher's batches and drops, the batch that it is about to hand over
and the one that it is filling are those of the formation. -/
def Forms (f : Formation ℚ) (b : DynamicBatcher) : Prop :=
  match b.stage with
  | .waiting => f.opened=none ∧ Shows T requests f b.handled b.dropped
  | .filling batch deadline => Shows T requests f b.handled b.dropped ∧
      ∃ opened, Fills T requests f batch opened ∧ deadline=opened.deadline
  | .draining batch => Shows T requests f b.handled b.dropped ∧
      ∃ opened, Fills T requests f batch opened
  | .reposting batch => Shows T requests f b.handled b.dropped ∧
      ∃ opened, Fills T requests f batch opened
  | .handling batch => f.opened=none ∧ Shows T requests f (b.handled++[batch]) b.dropped
  | .returned => f.opened=none ∧ Shows T requests f b.handled b.dropped

end Shown

section Runs

variable {config : DynamicConfig} {T : Timeline ℚ} {requests : ℕ → Request}
variable {b c : DynamicBatcher} {i k s : ℕ} {ingress : Ingress}

/-- Where differences are exact a wait ends by the deadline it was given. -/
theorem inTime_iff (hx : config.rounded=id) (deadline : ℚ) :
    T.arrivedAt i<T.waitedFrom i+remaining config T i deadline ↔ T.inTime i deadline=true := by
  rw [remaining,hx,Timeline.inTime,decide_eq_true_iff]
  rfl

/-- The callers have put `k` requests and then `s` sentinels, and `i` requests
were taken. -/
structure Queued (T : Timeline ℚ) (requests : ℕ → Request) (i k s : ℕ) (ingress : Ingress) :
    Prop where
  taken : i≤k
  within : k≤T.count
  ended : 0<s → k=T.count
  accepted : ingress.accepted=(List.range k).map requests
  queue : ingress.queue=
    (List.range' i (k-i)).map (fun j => some (requests j))++List.replicate s none

/-- What the requests taken so far have become, before the batch that is being
filled is looked at. -/
abbrev before (config : DynamicConfig) (T : Timeline ℚ) (i : ℕ) : Formation ℚ :=
  upTo T config.maxBatchSize config.maxWait i

/-- The same when the batch has been closed if it is to be. -/
abbrev settled (config : DynamicConfig) (T : Timeline ℚ) (i : ℕ) : Formation ℚ :=
  settle T config.maxBatchSize i (before config T i)

/-- Where the thread stands when it has taken `i` requests. -/
def Stands (config : DynamicConfig) (T : Timeline ℚ) (requests : ℕ → Request) (i : ℕ)
    (b : DynamicBatcher) : Prop :=
  match b.stage with
  | .waiting => Forms T requests (settled config T i) b
  | .filling _ _ => Forms T requests (before config T i) b
  | .draining _ => Forms T requests (before config T i) b ∧ i=T.count ∧
      ∀ opened, (before config T i).opened=some opened →
        closes T config.maxBatchSize i opened=some .shutdown
  | .reposting _ => Forms T requests (before config T i) b ∧ i=T.count ∧
      ∀ opened, (before config T i).opened=some opened →
        closes T config.maxBatchSize i opened=some .shutdown
  | .handling _ => Forms T requests (settled config T i) b
  | .returned => Forms T requests (settled config T i) b ∧ i=T.count

theorem requestsIn_pending (l : List ℕ) (s : ℕ) :
    requestsIn (l.map (fun j => some (requests j))++List.replicate s none)=l.map requests := by
  rw [requestsIn_append,requestsIn,requestsIn,List.filterMap_map]
  have hn : (List.replicate s (none : Option Request)).filterMap id=[] :=
    List.filterMap_eq_nil_iff.mpr (fun _ hm => List.eq_of_mem_replicate hm)
  rw [hn,List.append_nil]
  exact congrFun List.filterMap_eq_map l

/-- The thread has taken what was put and is no longer queued. -/
theorem Queued.served (h : Queued T requests i k s b.ingress) : served b=i := by
  have ht := h.taken
  rw [CollectorTimelines.served,h.accepted,h.queue,requestsIn_pending,List.length_map,
    List.length_map,List.length_range,List.length_range']
  omega

/-- The front of the queue: the next request, a sentinel at the end, or
nothing yet. -/
theorem Queued.front (h : Queued T requests i k s ingress) :
    (∃ rest, i<k ∧ ingress.queue=some (requests i)::rest ∧
      Queued T requests (i+1) k s {ingress with queue := rest}) ∨
    (∃ rest, i=k ∧ 0<s ∧ ingress.queue=none::rest ∧
      Queued T requests i k (s-1) {ingress with queue := rest}) ∨
    (i=k ∧ s=0 ∧ ingress.queue=[]) := by
  have ht := h.taken
  have hq := h.queue
  rcases Nat.lt_or_eq_of_le ht with hi | hi
  · refine .inl ⟨(List.range' (i+1) (k-(i+1))).map (fun j => some (requests j))++
      List.replicate s none,hi,?_,⟨hi,h.within,h.ended,h.accepted,rfl⟩⟩
    rw [hq,show k-i=k-(i+1)+1 by omega,List.range'_succ,List.map_cons,List.cons_append]
  · rw [show k-i=0 by omega,List.range'_zero,List.map_nil,List.nil_append] at hq
    cases s with
    | zero => exact .inr (.inr ⟨hi,rfl,hq⟩)
    | succ s =>
      refine .inr (.inl ⟨List.replicate s none,hi,Nat.succ_pos s,hq,?_⟩)
      refine ⟨ht,h.within,fun _ => h.ended (Nat.succ_pos s),h.accepted,?_⟩
      rw [show k-i=0 by omega,List.range'_zero,List.map_nil,List.nil_append]
      rfl

/-- One more sentinel is put once all requests were. -/
theorem Queued.sentinel (h : Queued T requests i k s ingress) (hk : k=T.count) (announcing : ℕ) :
    Queued T requests i k (s+1)
      {ingress with queue := ingress.queue++[none], announcing := announcing} := by
  refine ⟨h.taken,h.within,fun _ => hk,h.accepted,?_⟩
  rw [h.queue,List.append_assoc,List.replicate_succ']

/-- A caller's step that the timeline allows. -/
theorem Queued.call {capacity : ℕ} {after : Ingress} {call : Call}
    (h : Queued T requests i k s b.ingress) (hf : Follows config T requests b (.caller call))
    (hc : b.ingress.call capacity call=some after) : ∃ k s, Queued T requests i k s after := by
  have hlen : b.ingress.accepted.length=k := by
    rw [h.accepted,List.length_map,List.length_range]
  cases call with
  | submit request =>
    rw [←Option.some.inj hc]
    refine ⟨k,s,?_⟩
    split <;> exact ⟨h.taken,h.within,h.ended,h.accepted,h.queue⟩
  | enqueue request =>
    obtain ⟨hroom,rfl⟩ := hf
    obtain ⟨_,ha⟩ := Option.ite_none_right_eq_some.mp hc
    rw [←Option.some.inj ha]
    simp only [hlen] at hroom ⊢
    have hs : s=0 := Nat.eq_zero_of_not_pos (fun hp => Nat.ne_of_lt hroom (h.ended hp))
    have ht := h.taken
    refine ⟨k+1,0,Nat.le_succ_of_le ht,hroom,fun hp => absurd hp (Nat.lt_irrefl 0),?_,?_⟩
    · rw [h.accepted,List.range_succ,List.map_append]
      rfl
    · rw [h.queue,hs,List.replicate_zero,List.append_nil,List.append_nil,
        show k+1-i=k-i+1 by omega,List.range'_concat,List.map_append,Nat.one_mul,
        show i+(k-i)=k by omega]
      rfl
  | refuse request =>
    obtain ⟨_,ha⟩ := Option.ite_none_right_eq_some.mp hc
    rw [←Option.some.inj ha]
    exact ⟨k,s,h.taken,h.within,h.ended,h.accepted,h.queue⟩
  | shutdown =>
    rw [←Option.some.inj hc]
    refine ⟨k,s,?_⟩
    split <;> exact ⟨h.taken,h.within,h.ended,h.accepted,h.queue⟩
  | announce =>
    obtain ⟨_,ha⟩ := Option.ite_none_right_eq_some.mp hc
    rw [←Option.some.inj ha]
    exact ⟨k,s,h.taken,h.within,h.ended,h.accepted,h.queue⟩
  | putSentinel =>
    obtain ⟨_,ha⟩ := Option.ite_none_right_eq_some.mp hc
    rw [←Option.some.inj ha]
    exact ⟨k,s+1,h.sentinel (hlen.symm.trans hf) _⟩
  | giveUp => exact hf.elim

/-- The stamped request has expired exactly when the timeline's has. -/
theorem stamped_expired (hd : ∀ i, (requests i).deadline=T.deadline i) (i : ℕ)
    {clock : Clock} (hc : clock=⟨T.dequeuedAt i,T.checkedAt i,T.remainingAt i⟩) :
    (stamped clock (requests i)).expired clock.checkedAt=T.expired i ∧
      stamped clock (requests i)=shown T requests i := by
  subst hc
  refine ⟨?_,rfl⟩
  rw [Request.expired,Timeline.expired]
  simp only [stamped,hd]
  cases T.deadline i <;> rfl

/-- A request that is dropped. -/
theorem Shows.dropped {f : Formation ℚ} {handled : List Batch} {drops : List Request}
    (h : Shows T requests f handled drops) (i : ℕ) :
    Shows T requests {f with dropped := f.dropped++[i]} handled (drops++[shown T requests i]) := by
  refine ⟨h.1,?_⟩
  rw [List.map_append,h.2]
  rfl

/-- A batch that is closed is the next one to hand over. -/
theorem Shows.closed {f : Formation ℚ} {handled : List Batch} {drops : List Request}
    (h : Shows T requests f handled drops) {batch : List Request} {opened : Opened ℚ}
    (hb : Fills T requests f batch opened) (closing : Closing) (i : ℕ) :
    Shows T requests
      {f with
        closed := f.closed++[{opened with closing := closing, dequeued := i}], opened := none}
      (handled++[⟨batch,triggerOf closing⟩]) drops := by
  refine ⟨?_,h.2⟩
  rw [List.map_append,h.1,hb.2]
  rfl

/-- The next request is taken while no batch is open. -/
theorem take_first (hx : config.rounded=id) (hd : ∀ i, (requests i).deadline=T.deadline i)
    {clock : Clock}
    (hc : clock=⟨T.dequeuedAt i,T.checkedAt i,T.remainingAt i⟩)
    (hp : b.stage=.waiting) (hs : Forms T requests (settled config T i) b) :
    Stands config T requests (i+1) (dropOr clock (requests i)
      (.filling [stamped clock (requests i)] (config.rounded (clock.now+config.maxWait))) b) := by
  rw [Forms,hp] at hs
  obtain ⟨ho,hsh⟩ := hs
  obtain ⟨hexp,hst⟩ := stamped_expired hd i hc
  have hb : before config T (i+1)=take T config.maxWait i (settled config T i) := rfl
  unfold dropOr
  rw [hexp,hst]
  by_cases he : T.expired i=true
  · rw [if_pos he]
    have hn : before config T (i+1)={settled config T i with
        dropped := (settled config T i).dropped++[i]} := by
      rw [hb,take,if_pos he]
    have hset : settled config T (i+1)=before config T (i+1) := by
      refine settle_closed ?_
      rw [hn]
      exact ho
    rw [Stands,hp]
    simp only [Forms]
    rw [hset,hn]
    exact ⟨ho,hsh.dropped i⟩
  · rw [if_neg he]
    have hn : before config T (i+1)={settled config T i with
        opened := some ⟨[i],T.dequeuedAt i+config.maxWait⟩} := by
      rw [hb,take,if_neg he,ho]
      rfl
    rw [Stands,Forms]
    simp only
    rw [hn,hx]
    subst hc
    exact ⟨hsh,_,⟨rfl,rfl⟩,rfl⟩

/-- The next request is taken while a batch stays open. -/
theorem take_next (hd : ∀ i, (requests i).deadline=T.deadline i) {clock : Clock}
    (hc : clock=⟨T.dequeuedAt i,T.checkedAt i,T.remainingAt i⟩) {opened : Opened ℚ}
    {batch : List Request} (hp : b.stage=.filling batch opened.deadline)
    (hf : Fills T requests (before config T i) batch opened)
    (hsh : Shows T requests (before config T i) b.handled b.dropped)
    (hn : closes T config.maxBatchSize i opened=none) :
    Stands config T requests (i+1) (dropOr clock (requests i)
      (.filling (batch++[stamped clock (requests i)]) opened.deadline) b) := by
  obtain ⟨hexp,hst⟩ := stamped_expired hd i hc
  have hb : before config T (i+1)=take T config.maxWait i (before config T i) := by
    change take T config.maxWait i (settle T config.maxBatchSize i (before config T i))=_
    rw [settle_none hf.1 hn]
  unfold dropOr
  rw [hexp,hst]
  by_cases he : T.expired i=true
  · rw [if_pos he,Stands,hp]
    simp only [Forms]
    rw [hb,take,if_pos he]
    exact ⟨hsh.dropped i,opened,hf,rfl⟩
  · rw [if_neg he,Stands,Forms]
    simp only
    rw [hb,take,if_neg he,hf.1]
    refine ⟨hsh,_,⟨rfl,?_⟩,rfl⟩
    rw [joined,List.map_append,hf.2]
    rfl

/-- A batch is closed and is to be handed over. -/
theorem close_batch {opened : Opened ℚ} {batch : List Request} {closing : Closing}
    (hf : Fills T requests (before config T i) batch opened)
    (hsh : Shows T requests (before config T i) b.handled b.dropped)
    (hc : closes T config.maxBatchSize i opened=some closing) :
    Stands config T requests i {b with stage := .handling ⟨batch,triggerOf closing⟩} := by
  rw [Stands,Forms]
  simp only
  rw [settled,settle_some hf.1 hc]
  exact ⟨rfl,hsh.closed hf closing i⟩

/-- Every step of the thread follows the formation. -/
theorem thread_stands (hx : config.rounded=id) (hd : ∀ i, (requests i).deadline=T.deadline i)
    {clock : Clock}
    (hq : Queued T requests i k s b.ingress) (hs : Stands config T requests i b)
    (hf : Follows config T requests b (.thread clock))
    (hstep : collectorStep config clock b=some c) :
    ∃ i s, Queued T requests i k s c.ingress ∧ Stands config T requests i c := by
  obtain ⟨hread,hwait⟩ := hf
  rw [hq.served] at hread hwait
  have hc : clock=⟨T.dequeuedAt i,T.checkedAt i,T.remainingAt i⟩ := by
    obtain ⟨h1,h2,h3⟩ := hread
    rw [←h1,←h2,←h3]
  unfold collectorStep at hstep
  cases hp : b.stage with
  | waiting =>
    simp only [hp] at hstep
    rw [Stands,hp] at hs
    rcases hq.front with ⟨rest,hi,hqueue,hnext⟩ | ⟨rest,hi,hpos,hqueue,hnext⟩ | ⟨_,_,hqueue⟩
    · rw [waitStep,hqueue] at hstep
      rw [←Option.some.inj hstep]
      have ht := take_first (b := popped rest b) hx hd hc hp hs
      refine ⟨i+1,s,?_,ht⟩
      unfold dropOr
      split <;> exact hnext
    · rw [waitStep,hqueue] at hstep
      rw [←Option.some.inj hstep]
      refine ⟨i,s-1,hnext,?_⟩
      simp only [Forms,hp] at hs
      exact ⟨hs,hi.trans (hq.ended hpos)⟩
    · rw [waitStep,hqueue] at hstep
      exact absurd hstep nofun
  | filling batch deadline =>
    simp only [hp,Option.some.injEq] at hstep
    rw [hp,Waits] at hwait
    rw [Stands,hp] at hs
    simp only [Forms,hp] at hs
    obtain ⟨hsh,opened,hfill,rfl⟩ := hs
    have hlen : batch.length=opened.members.length := by rw [hfill.2,List.length_map]
    have hdone : ∀ closing, closes T config.maxBatchSize i opened=some closing →
        c={b with stage := .handling ⟨batch,triggerOf closing⟩} →
          ∃ i s, Queued T requests i k s c.ingress ∧ Stands config T requests i c := by
      rintro closing hcl rfl
      exact ⟨i,s,hq,close_batch hfill hsh hcl⟩
    have hrem : config.rounded (opened.deadline-clock.remainingAt)=
        opened.deadline-T.remainingAt i := by
      rw [hc,hx]
      rfl
    unfold fillStep at hstep
    rw [hrem] at hstep
    by_cases hroom : batch.length<config.maxBatchSize
    · rw [if_pos hroom] at hstep
      have hsize : ¬config.maxBatchSize≤opened.members.length := by
        rw [←hlen]
        exact Nat.not_le.mpr hroom
      by_cases htime : opened.deadline-T.remainingAt i≤0
      · rw [if_pos htime] at hstep
        refine hdone .timeout ?_ hstep.symm
        rw [closes,if_neg hsize,if_pos htime]
      · rw [if_neg htime] at hstep
        have hpos : 0<remaining config T i opened.deadline := by
          rw [remaining,hx]
          exact not_le.mp htime
        have hw := (hwait hroom hpos).2.trans (inTime_iff hx opened.deadline)
        rcases hq.front with ⟨rest,hi,hqueue,hnext⟩ | ⟨rest,hi,hpos,hqueue,hnext⟩ |
          ⟨hi,_,hqueue⟩
        · rw [hqueue] at hstep hw
          have hin := hw.mp (List.cons_ne_nil _ _)
          have hcl : closes T config.maxBatchSize i opened=none := by
            rw [closes,if_neg hsize,if_neg htime,if_pos hin,
              if_pos (Nat.lt_of_lt_of_le hi hq.within)]
          rw [←hstep]
          have ht := take_next (b := popped rest b) hd hc hp hfill hsh hcl
          refine ⟨i+1,s,?_,ht⟩
          simp only
          unfold dropOr
          split <;> exact hnext
        · rw [hqueue] at hstep hw
          have hin := hw.mp (List.cons_ne_nil _ _)
          have hend : i=T.count := hi.trans (hq.ended hpos)
          have hcl : closes T config.maxBatchSize i opened=some .shutdown := by
            rw [closes,if_neg hsize,if_neg htime,if_pos hin,
              if_neg (by rw [hend]; exact Nat.lt_irrefl _)]
          rw [←hstep]
          refine ⟨i,s-1,hnext,?_⟩
          refine ⟨⟨hsh,opened,hfill⟩,hend,fun other ho => ?_⟩
          rw [hfill.1] at ho
          rw [←Option.some.inj ho]
          exact hcl
        · rw [hqueue] at hstep hw
          have hin : T.inTime i opened.deadline≠true := fun h => hw.mpr h rfl
          refine hdone .timeout ?_ hstep.symm
          rw [closes,if_neg hsize,if_neg htime,if_neg hin]
    · rw [if_neg hroom] at hstep
      refine hdone .size ?_ hstep.symm
      rw [closes,if_pos (hlen ▸ Nat.not_lt.mp hroom)]
  | draining batch =>
    simp only [hp,Option.some.injEq] at hstep
    rw [Stands,hp] at hs
    obtain ⟨hforms,hend,hcl⟩ := hs
    simp only [Forms,hp] at hforms
    obtain ⟨hsh,opened,hfill⟩ := hforms
    have hlast : ∀ {ingress : Ingress},
        Stands config T requests i {b with ingress := ingress, stage := .reposting batch} :=
      fun {_} => ⟨⟨hsh,opened,hfill⟩,hend,hcl⟩
    unfold drainStep at hstep
    by_cases hroom : batch.length<config.maxBatchSize
    · rw [if_pos hroom] at hstep
      rcases hq.front with ⟨rest,hi,_⟩ | ⟨rest,hi,hpos,hqueue,hnext⟩ | ⟨hi,_,hqueue⟩
      · have hw := hq.within
        omega
      · rw [hqueue] at hstep
        rw [←hstep]
        exact ⟨i,s-1,hnext,hlast⟩
      · rw [hqueue] at hstep
        rw [←hstep]
        exact ⟨i,s,hq,hlast⟩
    · rw [if_neg hroom] at hstep
      rw [←hstep]
      exact ⟨i,s,hq,hlast⟩
  | reposting batch =>
    simp only [hp,Option.some.injEq] at hstep
    rw [Stands,hp] at hs
    obtain ⟨hforms,hend,hcl⟩ := hs
    simp only [Forms,hp] at hforms
    obtain ⟨hsh,opened,hfill⟩ := hforms
    have hk : k=T.count := by
      have ht := hq.taken
      have hw := hq.within
      omega
    unfold repostStep at hstep
    split at hstep
    · rw [←hstep]
      refine ⟨i,s+1,hq.sentinel hk b.ingress.announcing,?_⟩
      exact close_batch (b := popped (b.ingress.queue++[none]) b) hfill hsh (hcl opened hfill.1)
    · rw [←hstep]
      exact ⟨i,s,hq,close_batch hfill hsh (hcl opened hfill.1)⟩
  | handling batch =>
    simp only [hp,Option.some.injEq] at hstep
    rw [Stands,hp] at hs
    simp only [Forms,hp] at hs
    rw [←hstep]
    exact ⟨i,s,hq,hs⟩
  | returned =>
    simp only [hp,reduceCtorEq] at hstep

/-- Along every run that follows the timeline the queue holds what was put
and not taken, and the thread stands where the formation does. -/
theorem reaches_stands (hx : config.rounded=id) (hd : ∀ i, (requests i).deadline=T.deadline i)
    (h : ((dynamicMachine config).guarded (Follows config T requests)).Reaches b) :
    ∃ i k s, Queued T requests i k s b.ingress ∧ Stands config T requests i b := by
  refine h.invariant (P := fun b => ∃ i k s, Queued T requests i k s b.ingress ∧
    Stands config T requests i b) ?_ ?_
  · rintro b rfl
    exact ⟨0,0,0,⟨le_rfl,Nat.zero_le _,fun hp => absurd hp (Nat.lt_irrefl 0),rfl,rfl⟩,rfl,rfl,rfl⟩
  · rintro b action c ⟨i,k,s,hq,hs⟩ ⟨hf,hstep⟩
    cases action with
    | caller call =>
      obtain ⟨after,hc,rfl⟩ := Option.map_eq_some_iff.mp hstep
      obtain ⟨k,s,hq⟩ := hq.call hf hc
      exact ⟨i,k,s,hq,hs⟩
    | thread clock =>
      obtain ⟨i,s,hq,hs⟩ := thread_stands hx hd hq hs hf hstep
      exact ⟨i,k,s,hq,hs⟩

/-- A thread that stands so forms the timeline's batches. -/
theorem Stands.forms (h : Stands config T requests i b) :
    (∃ f, (f=before config T i ∨ f=settled config T i) ∧ Forms T requests f b) ∧
      (b.stage=.returned →
        i=T.count ∧ Forms T requests (formation T config.maxBatchSize config.maxWait) b) := by
  rw [Stands] at h
  cases hp : b.stage with
  | waiting =>
    simp only [hp] at h
    exact ⟨⟨_,.inr rfl,h⟩,nofun⟩
  | filling batch deadline =>
    simp only [hp] at h
    exact ⟨⟨_,.inl rfl,h⟩,nofun⟩
  | draining batch =>
    simp only [hp] at h
    exact ⟨⟨_,.inl rfl,h.1⟩,nofun⟩
  | reposting batch =>
    simp only [hp] at h
    exact ⟨⟨_,.inl rfl,h.1⟩,nofun⟩
  | handling batch =>
    simp only [hp] at h
    exact ⟨⟨_,.inr rfl,h⟩,nofun⟩
  | returned =>
    simp only [hp] at h
    obtain ⟨h,rfl⟩ := h
    exact ⟨⟨_,.inr rfl,h⟩,fun _ => ⟨rfl,h⟩⟩

/-- Along every run that follows the timeline the thread's batches and drops
are lawful, and when it has returned they are those of the timeline. -/
theorem collector_forms (hx : config.rounded=id) (hd : ∀ i, (requests i).deadline=T.deadline i)
    (h : ((dynamicMachine config).guarded (Follows config T requests)).Reaches b) :
    served b≤T.count ∧
      (∃ f, Lawful T config.maxBatchSize config.maxWait (served b) f ∧ Forms T requests f b) ∧
      (b.stage=.returned → served b=T.count ∧
        Forms T requests (formation T config.maxBatchSize config.maxWait) b) := by
  obtain ⟨i,k,s,hq,hs⟩ := reaches_stands hx hd h
  obtain ⟨⟨f,hf,hforms⟩,hret⟩ := hs.forms
  have hi : i≤T.count := hq.taken.trans hq.within
  have hl : Lawful T config.maxBatchSize config.maxWait i (before config T i) :=
    upTo_lawful config.maxBatchSize_pos hi
  rw [hq.served]
  refine ⟨hi,⟨f,?_,hforms⟩,hret⟩
  rcases hf with rfl | rfl
  · exact hl
  · exact hl.settle hi

end Runs

section Completion

variable {config : DynamicConfig} {T : Timeline ℚ} {requests : ℕ → Request}
variable {b c : DynamicBatcher} {i : ℕ}

/-- The batcher under the timeline. -/
abbrev timed (config : DynamicConfig) (T : Timeline ℚ) (requests : ℕ → Request) :
    Machine DynamicBatcher Action :=
  (dynamicMachine config).guarded (Follows config T requests)

/-- The clock as the thread reads it before request `i`. -/
def clockAt (T : Timeline ℚ) (i : ℕ) : Clock := ⟨T.dequeuedAt i,T.checkedAt i,T.remainingAt i⟩

/-- Nothing is queued, no call is in progress, and `i` requests were put. -/
def Quiet (i : ℕ) (b : DynamicBatcher) : Prop :=
  ∃ accepted, accepted.length=i ∧ b.ingress={accepted := accepted}

/-- The thread waits for a first request, or fills a batch whose deadline is no
further off than the wait that is configured. -/
def Collects (config : DynamicConfig) (T : Timeline ℚ) (i : ℕ) (stage : Stage) : Prop :=
  stage=.waiting ∨ ∃ batch deadline, stage=.filling batch deadline ∧
    deadline≤T.remainingAt i+config.maxWait

/-- Some run that follows the timeline returns. -/
def Returns (config : DynamicConfig) (T : Timeline ℚ) (requests : ℕ → Request) : Prop :=
  ∃ b, (timed config T requests).Reaches b ∧ b.stage=.returned

theorem capacity_pos (config : DynamicConfig) : 0<config.queueCapacity :=
  Nat.lt_of_lt_of_le config.maxBatchSize_pos config.capacity_le

/-- A step of the thread at the timeline's readings. -/
theorem thread_reaches (h : (timed config T requests).Reaches b) (hi : served b=i)
    (hw : Waits config T i b.ingress.queue b.stage)
    (hs : collectorStep config (clockAt T i) b=some c) :
    (timed config T requests).Reaches c := by
  subst hi
  exact .step (a := .thread (clockAt T (served b))) h ⟨⟨⟨rfl,rfl,rfl⟩,hw⟩,hs⟩

/-- A step of a caller that the timeline allows. -/
theorem caller_reaches (h : (timed config T requests).Reaches b) (call : Call) {ingress : Ingress}
    (hf : Follows config T requests b (.caller call))
    (hc : b.ingress.call config.queueCapacity call=some ingress)
    (hs : c={b with ingress := ingress}) : (timed config T requests).Reaches c := by
  refine .step (a := .caller call) h ⟨hf,?_⟩
  rw [hs]
  exact congrArg (Option.map (fun ingress => {b with ingress := ingress})) hc

/-- The next request is put. -/
theorem arrival_reaches (h : (timed config T requests).Reaches b) (hq : Quiet i b)
    (hi : i<T.count) : ∃ accepted, accepted.length=i+1 ∧ (timed config T requests).Reaches
      {b with ingress := {queue := [some (requests i)], accepted := accepted}} := by
  obtain ⟨accepted,rfl,hb⟩ := hq
  have hsub : (timed config T requests).Reaches
      {b with ingress := {submitting := [requests accepted.length], accepted := accepted}} := by
    refine caller_reaches h (.submit (requests accepted.length)) trivial ?_ rfl
    rw [hb]
    rfl
  refine ⟨accepted++[requests accepted.length],List.length_append,?_⟩
  refine caller_reaches hsub (.enqueue (requests accepted.length)) ⟨hi,rfl⟩ ?_ rfl
  rw [Ingress.call,if_pos ⟨List.mem_singleton_self _,capacity_pos config⟩,List.erase_cons_head]
  rfl

/-- The sentinel is put behind the last request. -/
theorem ending_reaches (h : (timed config T requests).Reaches b) (hq : Quiet T.count b) :
    ∃ accepted, accepted.length=T.count ∧ (timed config T requests).Reaches
      {b with ingress := {queue := [none], stopping := true, accepted := accepted}} := by
  obtain ⟨accepted,hl,hb⟩ := hq
  have hcalled : (timed config T requests).Reaches
      {b with ingress := {closing := 1, accepted := accepted}} := by
    refine caller_reaches h .shutdown trivial ?_ rfl
    rw [hb]
    rfl
  have hset : (timed config T requests).Reaches
      {b with ingress := {stopping := true, announcing := 1, accepted := accepted}} :=
    caller_reaches hcalled .announce trivial rfl rfl
  refine ⟨accepted,hl,caller_reaches hset .putSentinel hl ?_ rfl⟩
  rw [Ingress.call,if_pos ⟨Nat.one_pos,capacity_pos config⟩]
  rfl

/-- A thread that waits while the sentinel is queued returns. -/
theorem sentinel_returns (h : (timed config T requests).Reaches b) (hs : b.stage=.waiting)
    (hqueue : b.ingress.queue=[none]) : Returns config T requests := by
  refine ⟨{popped [] b with stage := .returned},thread_reaches h rfl ?_ ?_,rfl⟩
  · rw [hs]
    trivial
  · rw [collectorStep]
    simp only [hs]
    rw [waitStep,hqueue]

/-- A thread that drains the empty queue hands its batch over and returns. -/
theorem draining_returns {batch : List Request} (h : (timed config T requests).Reaches b)
    (hs : b.stage=.draining batch) (hqueue : b.ingress.queue=[]) : Returns config T requests := by
  have hrepost : (timed config T requests).Reaches {b with stage := .reposting batch} := by
    refine thread_reaches h rfl ?_ ?_
    · rw [hs]
      trivial
    · rw [collectorStep]
      simp only [hs]
      rw [drainStep,hqueue]
      split <;> rfl
  have hput : (timed config T requests).Reaches
      {popped [none] b with stage := .handling ⟨batch,.shutdown⟩} := by
    refine thread_reaches hrepost rfl trivial (congrArg some ?_)
    rw [repostStep,hqueue]
    exact if_pos (capacity_pos config)
  exact sentinel_returns (thread_reaches hput rfl trivial rfl) rfl rfl

/-- A request that was taken leaves a thread that goes on collecting. -/
theorem taken_quiet {accepted : List Request} {kept : Stage} (clock : Clock) (request : Request)
    (hl : accepted.length=i) (hb : b.ingress={accepted := accepted})
    (hs : Collects config T i b.stage) (hk : Collects config T i kept) :
    Quiet i (dropOr clock request kept b) ∧
      Collects config T i (dropOr clock request kept b).stage := by
  unfold dropOr
  split
  · exact ⟨⟨accepted,hl,hb⟩,hs⟩
  · exact ⟨⟨accepted,hl,hb⟩,hk⟩

/-- A waiting thread takes the next request, or returns. -/
theorem waiting_returns (hx : config.rounded=id) (h : (timed config T requests).Reaches b)
    (hq : Quiet i b) (hi : i≤T.count) (hs : b.stage=.waiting)
    (hnext : ∀ c, (timed config T requests).Reaches c → Quiet (i+1) c →
      Collects config T (i+1) c.stage → i<T.count → Returns config T requests) :
    Returns config T requests := by
  rcases Nat.lt_or_eq_of_le hi with hi | rfl
  · obtain ⟨accepted,hl,hr⟩ := arrival_reaches h hq hi
    have hanchor : config.rounded (T.dequeuedAt i+config.maxWait)≤
        T.remainingAt (i+1)+config.maxWait := by
      rw [hx]
      exact add_le_add_left (T.dequeued_remaining i) _
    have ht := @taken_quiet config T
      (popped [] {b with ingress := {accepted := accepted}}) (i+1) accepted _
      (clockAt T i) (requests i) hl rfl (.inl hs) (.inr ⟨[stamped (clockAt T i) (requests i)],
        config.rounded (T.dequeuedAt i+config.maxWait),rfl,hanchor⟩)
    refine hnext _ (thread_reaches (i := i) hr ?_ ?_ ?_) ht.1 ht.2 hi
    · rw [served,hl]
      rfl
    · rw [hs]
      trivial
    · rw [collectorStep]
      simp only [hs]
      rfl
  · obtain ⟨accepted,_,hr⟩ := ending_reaches h hq
    exact sentinel_returns hr hs rfl

/-- A thread that fills a batch takes the next request, or hands it over. -/
theorem filling_returns (hx : config.rounded=id) (hwait : config.maxWait≤timeoutMax)
    (h : (timed config T requests).Reaches b) (hq : Quiet i b)
    (hi : i≤T.count) {batch : List Request} {deadline : ℚ} (hs : b.stage=.filling batch deadline)
    (hd : deadline≤T.remainingAt i+config.maxWait)
    (hnext : ∀ c, (timed config T requests).Reaches c → Quiet (i+1) c →
      Collects config T (i+1) c.stage → i<T.count → Returns config T requests) :
    Returns config T requests := by
  obtain ⟨accepted,hl,hb⟩ := id hq
  have hserved : served b=i := by
    rw [served,hb]
    exact hl
  have hclosed : ∀ trigger, Waits config T i b.ingress.queue b.stage →
      fillStep config (clockAt T i) batch deadline b={b with stage := .handling ⟨batch,trigger⟩} →
        Returns config T requests := by
    intro trigger hw hf
    have hr := thread_reaches h hserved hw (c := {b with stage := .handling ⟨batch,trigger⟩}) <| by
      rw [collectorStep]
      simp only [hs,hf]
    have hr := thread_reaches (i := i) hr hserved trivial rfl
    exact waiting_returns hx hr ⟨accepted,hl,hb⟩ hi rfl hnext
  have hmax : remaining config T i deadline≤timeoutMax := by
    rw [remaining,hx]
    exact (sub_le_iff_le_add'.mpr hd).trans hwait
  by_cases hroom : batch.length<config.maxBatchSize
  · by_cases htime : config.rounded (deadline-(clockAt T i).remainingAt)≤0
    · refine hclosed .timeout ?_ ?_
      · rw [hs]
        exact fun _ hpos => absurd htime (not_le.mpr hpos)
      · rw [fillStep,if_pos hroom,if_pos htime]
    · by_cases hin : T.arrivedAt i<T.waitedFrom i+remaining config T i deadline
      · rcases Nat.lt_or_eq_of_le hi with hi | rfl
        · obtain ⟨accepted,hl,hr⟩ := arrival_reaches h hq hi
          have hlater := hd.trans (add_le_add_left (T.remaining_remaining i) config.maxWait)
          have ht := @taken_quiet config T
            (popped [] {b with ingress := {accepted := accepted}}) (i+1) accepted _
            (clockAt T i) (requests i) hl rfl (.inr ⟨_,_,hs,hlater⟩)
            (.inr ⟨batch++[stamped (clockAt T i) (requests i)],deadline,rfl,hlater⟩)
          refine hnext _ (thread_reaches (i := i) hr ?_ ?_ ?_) ht.1 ht.2 hi
          · rw [served,hl]
            rfl
          · rw [hs]
            exact fun _ _ => ⟨hmax,iff_of_true (List.cons_ne_nil _ _) hin⟩
          · rw [collectorStep]
            simp only [hs]
            rw [fillStep,if_pos hroom,if_neg htime]
            rfl
        · obtain ⟨accepted,hl,hr⟩ := ending_reaches h hq
          refine draining_returns (b := {popped [] {b with ingress := {
            stopping := true, accepted := accepted}} with stage := .draining batch})
            (thread_reaches (i := T.count) hr hl ?_ ?_) rfl rfl
          · rw [hs]
            exact fun _ _ => ⟨hmax,iff_of_true (List.cons_ne_nil _ _) hin⟩
          · rw [collectorStep]
            simp only [hs]
            rw [fillStep,if_pos hroom,if_neg htime]
            rfl
      · refine hclosed .timeout ?_ ?_
        · rw [hs,hb]
          exact fun _ _ => ⟨hmax,iff_of_false (fun hn => hn rfl) hin⟩
        · rw [fillStep,if_pos hroom,if_neg htime,hb]
  · refine hclosed .maxSize ?_ ?_
    · rw [hs]
      exact fun h => absurd h hroom
    · rw [fillStep,if_neg hroom]

/-- Every timeline is followed by a run in which the thread returns. -/
theorem collector_returns (hx : config.rounded=id) (hwait : config.maxWait≤timeoutMax) :
    Returns config T requests := by
  have hall : ∀ n i, T.count-i=n → i≤T.count → ∀ b, (timed config T requests).Reaches b →
      Quiet i b → Collects config T i b.stage → Returns config T requests := by
    intro n
    induction n using Nat.strong_induction_on with
    | _ n ih =>
      intro i hn hi b hr hq hs
      have hnext : ∀ c, (timed config T requests).Reaches c → Quiet (i+1) c →
          Collects config T (i+1) c.stage → i<T.count → Returns config T requests :=
        fun c hr hq hs hlt => ih (T.count-(i+1)) (by omega) (i+1) rfl hlt c hr hq hs
      rcases hs with hs | ⟨batch,deadline,hs,hd⟩
      · exact waiting_returns hx hr hq hi hs hnext
      · exact filling_returns hx hwait hr hq hi hs hd hnext
  exact hall T.count 0 rfl (Nat.zero_le _) {} (.start rfl) ⟨[],rfl,rfl⟩ (.inl rfl)

/-- A thread that has yet to take the first request, or is about to wait for
the second with a timeout that no wait takes. -/
def Overlong (config : DynamicConfig) (T : Timeline ℚ) (requests : ℕ → Request)
    (b : DynamicBatcher) : Prop :=
  ∃ i k s, Queued T requests i k s b.ingress ∧
    (i=0 ∧ b.stage=.waiting ∨ i=1 ∧ ∃ batch deadline, b.stage=.filling batch deadline ∧
      batch.length<config.maxBatchSize ∧ timeoutMax<remaining config T i deadline)

/-- Such a thread takes the first request and no step after it. -/
theorem Overlong.step (hd : ∀ i, (requests i).deadline=T.deadline i) (hm : 1<config.maxBatchSize)
    (hc : 0<T.count) (hlive : T.expired 0=false)
    (hlong : timeoutMax<remaining config T 1 (config.rounded (T.dequeuedAt 0+config.maxWait)))
    {clock : Clock} (h : Overlong config T requests b)
    (hf : Follows config T requests b (.thread clock))
    (hs : collectorStep config clock b=some c) : Overlong config T requests c := by
  obtain ⟨i,k,s,hq,hw⟩ := h
  obtain ⟨hread,hwait⟩ := hf
  rw [hq.served] at hread hwait
  rcases hw with ⟨rfl,hst⟩ | ⟨rfl,batch,deadline,hst,hroom,hover⟩
  · have hclock : clock=⟨T.dequeuedAt 0,T.checkedAt 0,T.remainingAt 0⟩ := by
      obtain ⟨h1,h2,h3⟩ := hread
      rw [←h1,←h2,←h3]
    simp only [collectorStep,hst] at hs
    rcases hq.front with ⟨rest,_,hqueue,hnext⟩ | ⟨rest,hk,hpos,_,_⟩ | ⟨_,_,hqueue⟩
    · rw [waitStep,hqueue] at hs
      have hs := Option.some.inj hs
      unfold dropOr at hs
      rw [(stamped_expired hd 0 hclock).1,if_neg (ne_true_of_eq_false hlive),hclock] at hs
      rw [←hs]
      exact ⟨1,k,s,hnext,.inr ⟨rfl,_,_,rfl,hm,hlong⟩⟩
    · exact absurd (hk.trans (hq.ended hpos)) hc.ne
    · rw [waitStep,hqueue] at hs
      exact absurd hs nofun
  · rw [hst] at hwait
    have hpos : (0 : ℚ)<timeoutMax := by norm_num [timeoutMax]
    exact absurd (hwait hroom (hpos.trans hover)).1 (not_le.mpr hover)

/-- Where the wait for the second request has a timeout that no wait takes,
the thread never returns. -/
theorem collector_stuck (hd : ∀ i, (requests i).deadline=T.deadline i)
    (hm : 1<config.maxBatchSize) (hc : 0<T.count) (hlive : T.expired 0=false)
    (hlong : timeoutMax<remaining config T 1 (config.rounded (T.dequeuedAt 0+config.maxWait))) :
    ¬Returns config T requests := by
  rintro ⟨b,hr,hb⟩
  have hover : Overlong config T requests b := by
    refine hr.invariant ?_ ?_
    · rintro b rfl
      exact ⟨0,0,0,⟨le_rfl,Nat.zero_le _,fun hp => absurd hp (Nat.lt_irrefl 0),rfl,rfl⟩,
        .inl ⟨rfl,rfl⟩⟩
    · rintro b action c h ⟨hf,hstep⟩
      cases action with
      | caller call =>
        obtain ⟨i,k,s,hq,hw⟩ := h
        obtain ⟨after,hcall,rfl⟩ := Option.map_eq_some_iff.mp hstep
        obtain ⟨k,s,hq⟩ := hq.call hf hcall
        exact ⟨i,k,s,hq,hw⟩
      | thread clock => exact h.step hd hm hc hlive hlong hf hstep
  obtain ⟨_,_,_,_,⟨_,hs⟩ | ⟨_,_,_,hs,_⟩⟩ := hover
  · exact absurd (hs.symm.trans hb) nofun
  · exact absurd (hs.symm.trans hb) nofun

end Completion

end CudaForge.CollectorTimelines
