import CudaForge.BatchFormation
import CudaForge.NativeBatcher

/-!
# The worker thread along a timeline

The native batcher under a timeline: its callers' accepted requests are the
timeline's, the queue is closed once all are in; the worker reads the
timeline's clock; and a timed wait is over with an item, or with the closed
queue, exactly when one comes before it ends. The times are 64-bit counts of
nanoseconds, and every sum and difference of them is one. Every such run forms
the timeline's batches. The log does not say why a batch was closed, so the
reasons are recorded beside the batcher as it hands the batches over.
-/

namespace CudaForge.WorkerTimelines

open BatchFormation ConcurrentQueue NativeBatcher TransitionRuns
open CudaForge.NativeBatcher (Request BatchTrigger Batcher Action)

/-- A batcher and the reasons of the batches handed over so far. -/
structure Forming where
  /-- The batcher. -/
  batcher : Batcher := {}
  /-- Why each delivered batch was closed. -/
  triggers : List BatchTrigger := []

/-- The reason that a step of the worker hands over with its batch. -/
def handsOver (b : Batcher) : Action → List BatchTrigger
  | .work _ =>
    match b.worker with
    | .collected batch trigger => if batch=[] then [] else [trigger]
    | _ => []
  | _ => []

/-- The runs of a new batcher. -/
def formingMachine (setup : Setup) : Machine Forming Action where
  starts v := NativeBatcher.make setup=.ok v.batcher ∧ v.triggers=[]
  steps v action w := v.batcher.step setup action=some w.batcher ∧
    w.triggers=v.triggers++handsOver v.batcher action

/-- How many requests the worker has taken. -/
def served (b : Batcher) : ℕ := b.accepted.length-b.guarded.buffer.length

/-- If the queue takes the entry, it is the timeline's next request. -/
def Next (setup : Setup) (T : Timeline ℤ) (requests : ℕ → Request) (b : Batcher)
    (entry : Entry) : Prop :=
  b.guarded.closed=false → b.guarded.buffer.length<setup.config.queueCapacity →
    b.accepted.length<T.count ∧ entry.request=requests b.accepted.length

instance (setup : Setup) (T : Timeline ℤ) (requests : ℕ → Request) (b : Batcher)
    (entry : Entry) : Decidable (Next setup T requests b entry) :=
  inferInstanceAs (Decidable (_ → _ → _))

/-- What the timeline says of an offer. -/
def Offers (setup : Setup) (T : Timeline ℤ) (requests : ℕ → Request) (b : Batcher) :
    Option Call → Prop
  | some (.pushing entry) => Next setup T requests b entry
  | some (.trying entry) => Next setup T requests b entry
  | _ => True

instance (setup : Setup) (T : Timeline ℤ) (requests : ℕ → Request) (b : Batcher) :
    (call : Option Call) → Decidable (Offers setup T requests b call)
  | none => inferInstanceAs (Decidable True)
  | some (.pushing entry) => inferInstanceAs (Decidable (Next setup T requests b entry))
  | some (.trying entry) => inferInstanceAs (Decidable (Next setup T requests b entry))
  | some (.decided _) => inferInstanceAs (Decidable True)
  | some (.returned _) => inferInstanceAs (Decidable True)

/-- A count that a 64-bit duration or time holds. -/
def Holdable (t : ℤ) : Prop := -2^63≤t ∧ t<2^63

instance (t : ℤ) : Decidable (Holdable t) := inferInstanceAs (Decidable (_ ∧ _))

/-- What the timeline says of the worker's readings before request `i`, and of
its timed wait: it finds an item, or the queue closed, exactly when one comes
before it ends. The wait in nanoseconds, the deadline, the time left and the
end of the wait are all held. -/
def Reads (setup : Setup) (T : Timeline ℤ) (i : ℕ) (g : Guarded Entry) (e : Env) :
    Worker → Prop
  | .popping => (e.now=T.dequeuedAt i ∧ e.tested=T.checkedAt i) ∧
      Holdable (setup.config.maxWait*1000) ∧ Holdable (e.now+setup.config.maxWait*1000)
  | .filling _ deadline => e.now=T.remainingAt i ∧ Holdable (deadline-e.now)
  | .waiting _ deadline => (e.now=T.dequeuedAt i ∧ e.tested=T.checkedAt i) ∧
      Holdable (T.timeoutAt i deadline) ∧ (g.mayPop=true ↔ T.inTime i deadline=true)
  | .draining _ => e.now=T.dequeuedAt i ∧ e.tested=T.checkedAt i
  | _ => True

instance (setup : Setup) (T : Timeline ℤ) (i : ℕ) (g : Guarded Entry) (e : Env) :
    (worker : Worker) → Decidable (Reads setup T i g e worker)
  | .popping => inferInstanceAs (Decidable (_ ∧ _))
  | .filling _ _ => inferInstanceAs (Decidable (_ ∧ _))
  | .waiting _ _ => inferInstanceAs (Decidable (_ ∧ _ ∧ _))
  | .draining _ => inferInstanceAs (Decidable (_ ∧ _))
  | .collected _ _ => inferInstanceAs (Decidable True)
  | .handling => inferInstanceAs (Decidable True)
  | .returned => inferInstanceAs (Decidable True)

/-- The step happens as the timeline says. -/
def Follows (setup : Setup) (T : Timeline ℤ) (requests : ℕ → Request) (v : Forming) :
    Action → Prop
  | .offer ticket => Offers setup T requests v.batcher v.batcher.calls[ticket]?
  | .close => v.batcher.accepted.length=T.count
  | .work e => Reads setup T (served v.batcher) v.batcher.guarded e v.batcher.worker
  | _ => True

instance (setup : Setup) (T : Timeline ℤ) (requests : ℕ → Request) (v : Forming) :
    (action : Action) → Decidable (Follows setup T requests v action)
  | .offer ticket => inferInstanceAs (Decidable
      (Offers setup T requests v.batcher v.batcher.calls[ticket]?))
  | .close => inferInstanceAs (Decidable (_=_))
  | .work e => inferInstanceAs (Decidable
      (Reads setup T (served v.batcher) v.batcher.guarded e v.batcher.worker))
  | .submit _ => inferInstanceAs (Decidable True)
  | .trySubmit _ => inferInstanceAs (Decidable True)
  | .answer _ => inferInstanceAs (Decidable True)
  | .shutdown => inferInstanceAs (Decidable True)
  | .join => inferInstanceAs (Decidable True)

/-- The reason for closing a batch, under the batcher's name. -/
def triggerOf : Closing → BatchTrigger
  | .size => .maxSize
  | .timeout => .timeout
  | .shutdown => .shutdown

/-- The batches the handler was given, as the requests of each. -/
def deliveredOf (log : List Outcome) : List (List Request) :=
  log.filterMap (fun outcome =>
    match outcome with
    | .delivered batch => some (batch.map Entry.request)
    | .dropped _ => none)

/-- The requests that were dropped. -/
def droppedOf (log : List Outcome) : List Request :=
  log.filterMap (fun outcome =>
    match outcome with
    | .delivered _ => none
    | .dropped entry => some entry.request)

section Shown

variable (T : Timeline ℤ) (requests : ℕ → Request)

/-- A request as the worker has stamped it. -/
def shown (i : ℕ) : Request := {requests i with dequeued := T.dequeuedAt i}

/-- The requests of a batch as the handler gets them. -/
def membersOf (batch : Opened ℤ) : List Request := batch.members.map (shown T requests)

/-- The batches, their reasons and the drops are these. -/
def Shows (f : Formation ℤ) (delivered : List (List Request)) (triggers : List BatchTrigger)
    (dropped : List Request) : Prop :=
  delivered=f.closed.map (fun batch => membersOf T requests batch.toOpened) ∧
    triggers=f.closed.map (fun batch => triggerOf batch.closing) ∧
    dropped=f.dropped.map (shown T requests)

/-- The batch in hand is the one being filled. -/
def Fills (f : Formation ℤ) (batch : List Entry) (opened : Opened ℤ) : Prop :=
  f.opened=some opened ∧ batch.map Entry.request=membersOf T requests opened

/-- The batcher's batches and drops, the batch that it is about to hand over
and the one that it is filling are those of the formation. -/
def Forms (f : Formation ℤ) (v : Forming) : Prop :=
  match v.batcher.worker with
  | .filling batch deadline =>
    Shows T requests f (deliveredOf v.batcher.log) v.triggers (droppedOf v.batcher.log) ∧
      ∃ opened, Fills T requests f batch opened ∧ deadline=opened.deadline
  | .waiting batch deadline =>
    Shows T requests f (deliveredOf v.batcher.log) v.triggers (droppedOf v.batcher.log) ∧
      ∃ opened, Fills T requests f batch opened ∧ deadline=opened.deadline
  | .draining batch =>
    Shows T requests f (deliveredOf v.batcher.log) v.triggers (droppedOf v.batcher.log) ∧
      ∃ opened, Fills T requests f batch opened
  | .collected batch trigger => f.opened=none ∧
      if batch=[] then
        Shows T requests f (deliveredOf v.batcher.log) v.triggers (droppedOf v.batcher.log)
      else
        Shows T requests f (deliveredOf v.batcher.log++[batch.map Entry.request])
          (v.triggers++[trigger]) (droppedOf v.batcher.log)
  | _ => f.opened=none ∧
      Shows T requests f (deliveredOf v.batcher.log) v.triggers (droppedOf v.batcher.log)

end Shown

section Runs

variable {setup : Setup} {T : Timeline ℤ} {requests : ℕ → Request}
variable {v w : Forming} {b c : Batcher} {i k : ℕ}

/-- The queue has accepted `k` requests of which `i` were taken, and is closed
only behind the last one. -/
structure Queued (T : Timeline ℤ) (requests : ℕ → Request) (i k : ℕ) (b : Batcher) : Prop where
  taken : i≤k
  within : k≤T.count
  ended : b.guarded.closed=true → k=T.count
  accepted : b.accepted.map Entry.request=(List.range k).map requests
  buffer : b.guarded.buffer.map Entry.request=(List.range' i (k-i)).map requests

/-- What the requests taken so far have become, before the batch that is being
filled is looked at. -/
abbrev before (setup : Setup) (T : Timeline ℤ) (i : ℕ) : Formation ℤ :=
  upTo T setup.config.maxBatchSize (setup.config.maxWait*1000) i

/-- The same when the batch has been closed if it is to be. -/
abbrev settled (setup : Setup) (T : Timeline ℤ) (i : ℕ) : Formation ℤ :=
  settle T setup.config.maxBatchSize i (before setup T i)

/-- Where the worker stands when it has taken `i` requests. -/
def Stands (setup : Setup) (T : Timeline ℤ) (requests : ℕ → Request) (i : ℕ) (v : Forming) :
    Prop :=
  match v.batcher.worker with
  | .filling _ _ => Forms T requests (before setup T i) v
  | .waiting _ _ => Forms T requests (before setup T i) v ∧
      ∀ opened, (before setup T i).opened=some opened →
        opened.members.length<setup.config.maxBatchSize ∧ 0<opened.deadline-T.remainingAt i
  | .draining _ => Forms T requests (before setup T i) v ∧ i=T.count ∧
      ∀ opened, (before setup T i).opened=some opened →
        closes T setup.config.maxBatchSize i opened=some .shutdown
  | .collected batch _ => Forms T requests (settled setup T i) v ∧ (batch=[] → i=T.count)
  | .returned => Forms T requests (settled setup T i) v ∧ i=T.count
  | _ => Forms T requests (settled setup T i) v

/-- The worker has taken what was accepted and is no longer buffered. -/
theorem Queued.served (h : Queued T requests i k b) : served b=i := by
  have ha := congrArg List.length h.accepted
  have hb := congrArg List.length h.buffer
  have ht := h.taken
  rw [List.length_map,List.length_map,List.length_range] at ha
  rw [List.length_map,List.length_map,List.length_range'] at hb
  rw [WorkerTimelines.served,ha,hb]
  omega

theorem Queued.length (h : Queued T requests i k b) : b.accepted.length=k := by
  have ha := congrArg List.length h.accepted
  rwa [List.length_map,List.length_map,List.length_range] at ha

/-- The front of the buffer is the next request, or all that was accepted was
taken. -/
theorem Queued.front (h : Queued T requests i k b) :
    (∃ entry rest, i<k ∧ b.guarded.buffer=entry::rest ∧ entry.request=requests i ∧
      ∀ c : Batcher, c.accepted=b.accepted → c.guarded={b.guarded with buffer := rest} →
        Queued T requests (i+1) k c) ∨
    (i=k ∧ b.guarded.buffer=[]) := by
  have ht := h.taken
  have hb := h.buffer
  cases hl : b.guarded.buffer with
  | nil =>
    rw [hl] at hb
    have hn := congrArg List.length hb
    rw [List.length_map,List.length_map,List.length_range',List.length_nil] at hn
    exact .inr ⟨by omega,rfl⟩
  | cons entry rest =>
    rw [hl] at hb
    have hn := congrArg List.length hb
    rw [List.length_map,List.length_map,List.length_range',List.length_cons] at hn
    rw [show k-i=k-(i+1)+1 by omega,List.range'_succ,List.map_cons,List.map_cons,
      List.cons.injEq] at hb
    refine .inl ⟨entry,rest,by omega,rfl,hb.1,fun c ha hg => ?_⟩
    refine ⟨by omega,h.within,?_,by rw [ha,h.accepted],?_⟩
    · rw [hg]
      exact h.ended
    · rw [hg]
      exact hb.2

/-- The fields the queue's books read. -/
theorem Queued.congr (h : Queued T requests i k b) (ha : c.accepted=b.accepted)
    (hg : c.guarded=b.guarded) : Queued T requests i k c := by
  refine ⟨h.taken,h.within,?_,ha ▸ h.accepted,?_⟩
  · rw [hg]
    exact h.ended
  · rw [hg]
    exact h.buffer

/-- An offer that the timeline allows. -/
theorem Queued.decide (h : Queued T requests i k b) {entry : Entry} {ticket : ℕ}
    {answer : Answer Entry} (hn : Next setup T requests b entry)
    (ha : b.guarded.push setup.config.queueCapacity entry=some answer ∨
      b.guarded.tryPush setup.config.queueCapacity entry=answer) :
    ∃ k, Queued T requests i k (b.decide entry ticket answer) := by
  have hrefused : ∀ status : QueueStatus, status≠.ok → answer=b.guarded.refuse status →
      ∃ k, Queued T requests i k (b.decide entry ticket answer) := by
    rintro status hs rfl
    exact ⟨k,h.congr (if_neg hs) rfl⟩
  have haccepted : b.guarded.closed=false →
      b.guarded.buffer.length<setup.config.queueCapacity → answer=b.guarded.accept entry →
      ∃ k, Queued T requests i k (b.decide entry ticket answer) := by
    rintro hopen hroom rfl
    obtain ⟨hlt,he⟩ := hn hopen hroom
    rw [h.length] at hlt he
    have ht := h.taken
    have hok : (b.guarded.accept entry).status=.ok := rfl
    have hacc : (b.decide entry ticket (b.guarded.accept entry)).accepted=b.accepted++[entry] := by
      simp only [Batcher.decide,if_pos hok]
    refine ⟨k+1,Nat.le_succ_of_le ht,hlt,fun hc => absurd (hopen.symm.trans hc) nofun,?_,?_⟩
    · rw [hacc,List.map_append,h.accepted,List.range_succ,List.map_append,List.map_singleton,he]
      rfl
    · change (b.guarded.buffer++[entry]).map Entry.request=_
      rw [List.map_append,h.buffer,show k+1-i=k-i+1 by omega,List.range'_concat,
        List.map_append,List.map_singleton,he,Nat.one_mul,show i+(k-i)=k by omega]
      rfl
  rcases ha with ha | ha
  · rcases push_eq ha with ⟨_,hr⟩ | ⟨hopen,hroom,hr⟩
    · exact hrefused .closed nofun hr
    · exact haccepted hopen hroom hr
  · rcases tryPush_eq setup.config.queueCapacity b.guarded entry with
      ⟨_,hr⟩ | ⟨_,_,hr⟩ | ⟨hopen,hroom,hr⟩
    · exact hrefused .closed nofun (ha.symm.trans hr)
    · exact hrefused .full nofun (ha.symm.trans hr)
    · exact haccepted hopen hroom (ha.symm.trans hr)

/-- A caller's step that the timeline allows keeps the books and the worker. -/
theorem Queued.call {action : Action} (h : Queued T requests i k v.batcher)
    (hw : ∀ e, action≠.work e) (hf : Follows setup T requests v action)
    (hs : v.batcher.step setup action=some c) :
    (∃ k, Queued T requests i k c) ∧ c.worker=v.batcher.worker ∧ c.log=v.batcher.log := by
  cases action with
  | submit request =>
    rw [←Option.some.inj hs]
    exact ⟨⟨k,h.congr rfl rfl⟩,rfl,rfl⟩
  | trySubmit request =>
    rw [←Option.some.inj hs]
    exact ⟨⟨k,h.congr rfl rfl⟩,rfl,rfl⟩
  | offer ticket =>
    simp only [Follows] at hf
    simp only [Batcher.step] at hs
    split at hs
    · next entry hc =>
      rw [hc] at hf
      obtain ⟨answer,ha,rfl⟩ := Option.map_eq_some_iff.mp hs
      exact ⟨h.decide hf (.inl ha),rfl,rfl⟩
    · next entry hc =>
      rw [hc] at hf
      rw [←Option.some.inj hs]
      exact ⟨h.decide hf (.inr rfl),rfl,rfl⟩
    · exact absurd hs nofun
  | answer ticket =>
    simp only [Batcher.step] at hs
    split at hs
    · rw [←Option.some.inj hs]
      exact ⟨⟨k,h.congr rfl rfl⟩,rfl,rfl⟩
    · exact absurd hs nofun
  | shutdown =>
    simp only [Batcher.step] at hs
    split at hs <;> rw [←Option.some.inj hs] <;> exact ⟨⟨k,h.congr rfl rfl⟩,rfl,rfl⟩
  | close =>
    obtain ⟨_,hc⟩ := Option.ite_none_right_eq_some.mp hs
    rw [←Option.some.inj hc]
    have hk : k=T.count := h.length.symm.trans hf
    exact ⟨⟨k,h.taken,h.within,fun _ => hk,h.accepted,h.buffer⟩,rfl,rfl⟩
  | join =>
    obtain ⟨_,hc⟩ := Option.ite_none_right_eq_some.mp hs
    rw [←Option.some.inj hc]
    exact ⟨⟨k,h.congr rfl rfl⟩,rfl,rfl⟩
  | work e => exact absurd rfl (hw e)

theorem deliveredOf_append (log more : List Outcome) :
    deliveredOf (log++more)=deliveredOf log++deliveredOf more := List.filterMap_append

theorem droppedOf_append (log more : List Outcome) :
    droppedOf (log++more)=droppedOf log++droppedOf more := List.filterMap_append

/-- The deadline of every request is the timeline's; the epoch means none. -/
def Encoded (T : Timeline ℤ) (requests : ℕ → Request) : Prop :=
  ∀ i, T.deadline i=if (requests i).deadline=0 then none else some (requests i).deadline

/-- The stamped request has expired exactly when the timeline's has. -/
theorem stamp_expired (hd : Encoded T requests) {entry : Entry} {e : Env}
    (he : entry.request=requests i) (hnow : e.now=T.dequeuedAt i)
    (htested : e.tested=T.checkedAt i) :
    (entry.stamp e.now).request.expired e.tested=T.expired i ∧
      (entry.stamp e.now).request=shown T requests i := by
  refine ⟨?_,?_⟩
  · rw [Request.expired,Timeline.expired,hd i,htested]
    have hdl : (entry.stamp e.now).request.deadline=(requests i).deadline := by
      rw [←he]
      rfl
    rw [hdl]
    by_cases hz : (requests i).deadline=0
    · rw [if_pos hz,decide_eq_false (not_not.mpr hz)]
      rfl
    · rw [if_neg hz,decide_eq_true hz]
      rfl
  · rw [shown,←he,←hnow]
    rfl

/-- A request that is dropped. -/
theorem Shows.dropped {f : Formation ℤ} {delivered : List (List Request)}
    {triggers : List BatchTrigger} {drops : List Request}
    (h : Shows T requests f delivered triggers drops) (i : ℕ) :
    Shows T requests {f with dropped := f.dropped++[i]} delivered triggers
      (drops++[shown T requests i]) := by
  refine ⟨h.1,h.2.1,?_⟩
  rw [List.map_append,h.2.2]
  rfl

/-- A batch that is closed is the next one to hand over. -/
theorem Shows.closed {f : Formation ℤ} {delivered : List (List Request)}
    {triggers : List BatchTrigger} {drops : List Request}
    (h : Shows T requests f delivered triggers drops) {batch : List Entry} {opened : Opened ℤ}
    (hb : Fills T requests f batch opened) (closing : Closing) (i : ℕ) :
    Shows T requests
      {f with
        closed := f.closed++[{opened with closing := closing, dequeued := i}], opened := none}
      (delivered++[batch.map Entry.request]) (triggers++[triggerOf closing]) drops := by
  refine ⟨?_,?_,h.2.2⟩
  · rw [List.map_append,h.1,hb.2]
    rfl
  · rw [List.map_append,h.2.1]
    rfl

/-- A step of the worker as the run records it. -/
def worked (v : Forming) (c : Batcher) (e : Env) : Forming :=
  ⟨c,v.triggers++handsOver v.batcher (.work e)⟩

/-- The next request is taken while no batch is open. -/
theorem take_first (hd : Encoded T requests) {entry : Entry} {e : Env}
    (he : entry.request=requests i) (hnow : e.now=T.dequeuedAt i)
    (htested : e.tested=T.checkedAt i) (hw : b.worker=.popping) {triggers : List BatchTrigger}
    (hs : Forms T requests (settled setup T i) ⟨b,triggers⟩) :
    Stands setup T requests (i+1) ⟨b.take setup e entry .popping
      (.filling [entry.stamp e.now] (e.now+setup.config.maxWait*1000)),triggers⟩ := by
  simp only [Forms,hw] at hs
  obtain ⟨ho,hsh⟩ := hs
  obtain ⟨hexp,hst⟩ := stamp_expired hd he hnow htested
  have hb : before setup T (i+1)=take T (setup.config.maxWait*1000) i (settled setup T i) := rfl
  unfold Batcher.take
  rw [hexp]
  by_cases hx : T.expired i=true
  · rw [if_pos hx]
    have hn : before setup T (i+1)={settled setup T i with
        dropped := (settled setup T i).dropped++[i]} := by
      rw [hb,take,if_pos hx]
    have hset : settled setup T (i+1)=before setup T (i+1) := by
      refine settle_closed ?_
      rw [hn]
      exact ho
    have hdrop := hsh.dropped i
    rw [←hst] at hdrop
    simp only [Stands,Forms]
    rw [hset,hn]
    refine ⟨ho,?_⟩
    rw [Batcher.drop,deliveredOf_append,droppedOf_append]
    exact (List.append_nil (deliveredOf b.log)).symm ▸ hdrop
  · rw [if_neg hx]
    have hn : before setup T (i+1)={settled setup T i with
        opened := some ⟨[i],T.dequeuedAt i+setup.config.maxWait*1000⟩} := by
      rw [hb,take,if_neg hx,ho]
      rfl
    simp only [Stands,Forms]
    rw [hn]
    refine ⟨hsh,_,⟨rfl,?_⟩,by rw [hnow]⟩
    rw [List.map_singleton,hst]
    rfl

/-- The next request is taken while a batch stays open. -/
theorem take_next (hd : Encoded T requests) {entry : Entry} {e : Env}
    (he : entry.request=requests i) (hnow : e.now=T.dequeuedAt i)
    (htested : e.tested=T.checkedAt i) {opened : Opened ℤ} {batch : List Entry}
    {triggers : List BatchTrigger} (hf : Fills T requests (before setup T i) batch opened)
    (hsh : Shows T requests (before setup T i) (deliveredOf b.log) triggers (droppedOf b.log))
    (hn : closes T setup.config.maxBatchSize i opened=none) :
    Stands setup T requests (i+1) ⟨b.take setup e entry (.filling batch opened.deadline)
      (.filling (batch++[entry.stamp e.now]) opened.deadline),triggers⟩ := by
  obtain ⟨hexp,hst⟩ := stamp_expired hd he hnow htested
  have hb : before setup T (i+1)=take T (setup.config.maxWait*1000) i (before setup T i) := by
    change take T (setup.config.maxWait*1000) i
      (settle T setup.config.maxBatchSize i (before setup T i))=_
    rw [settle_none hf.1 hn]
  unfold Batcher.take
  rw [hexp]
  by_cases hx : T.expired i=true
  · rw [if_pos hx]
    have hdrop := hsh.dropped i
    rw [←hst] at hdrop
    simp only [Stands,Forms]
    rw [hb,take,if_pos hx]
    refine ⟨?_,opened,hf,rfl⟩
    rw [Batcher.drop,deliveredOf_append,droppedOf_append]
    exact (List.append_nil (deliveredOf b.log)).symm ▸ hdrop
  · rw [if_neg hx]
    simp only [Stands,Forms]
    rw [hb,take,if_neg hx,hf.1]
    refine ⟨hsh,_,⟨rfl,?_⟩,rfl⟩
    rw [List.map_append,hf.2,List.map_singleton,hst,joined,membersOf,membersOf,List.map_append]
    rfl

/-- A batch is closed and is to be handed over. -/
theorem close_batch {opened : Opened ℤ} {batch : List Entry} {triggers : List BatchTrigger}
    (closing : Closing) (hne : batch≠[])
    (hf : Fills T requests (before setup T i) batch opened)
    (hsh : Shows T requests (before setup T i) (deliveredOf b.log) triggers (droppedOf b.log))
    (hc : closes T setup.config.maxBatchSize i opened=some closing)
    (hw : b.worker=.collected batch (triggerOf closing)) :
    Stands setup T requests i ⟨b,triggers⟩ := by
  simp only [Stands,Forms,hw]
  rw [settled,settle_some hf.1 hc]
  refine ⟨⟨rfl,?_⟩,fun h => absurd h hne⟩
  rw [if_neg hne]
  exact hsh.closed hf closing i

/-- A batch that is being filled is as long as the open one. -/
theorem fills_length {batch : List Entry} {opened : Opened ℤ} {formed : Formation ℤ}
    (hf : Fills T requests formed batch opened) : batch.length=opened.members.length := by
  have hl := congrArg List.length hf.2
  rwa [List.length_map,membersOf,List.length_map] at hl

/-- A batch that is being filled is not empty. -/
theorem fills_ne_nil (hm : 0<setup.config.maxBatchSize) (hi : i≤T.count) {batch : List Entry}
    {opened : Opened ℤ} (hf : Fills T requests (before setup T i) batch opened) : batch≠[] := by
  have hl : Lawful T setup.config.maxBatchSize (setup.config.maxWait*1000) i (before setup T i) :=
    upTo_lawful hm hi
  obtain ⟨_,first,rest,hmem,_⟩ := hl.anchored.2 opened hf.1
  rintro rfl
  have hn := hf.2
  rw [membersOf,hmem] at hn
  exact absurd hn nofun

/-- Every step of the worker follows the formation. -/
theorem work_stands (hd : Encoded T requests) (hm : 0<setup.config.maxBatchSize) {e : Env}
    (hq : Queued T requests i k v.batcher) (hs : Stands setup T requests i v)
    (hf : Follows setup T requests v (.work e)) (hstep : v.batcher.work setup e=some c) :
    ∃ i, Queued T requests i k c ∧ Stands setup T requests i (worked v c e) := by
  obtain ⟨b,triggers⟩ := v
  have hi : i≤T.count := hq.taken.trans hq.within
  have htake : ∀ {entry : Entry} {rest : List Entry} {dropped kept : Worker},
      (∀ c : Batcher, c.accepted=b.accepted → c.guarded={b.guarded with buffer := rest} →
        Queued T requests (i+1) k c) → Queued T requests (i+1) k
          ({b with guarded := {b.guarded with buffer := rest}}.take setup e entry dropped
            kept) := by
    intro entry rest dropped kept hnext
    unfold Batcher.take
    split <;> exact hnext _ rfl rfl
  have hsilent : (∀ batch trigger, b.worker≠.collected batch trigger) →
      worked ⟨b,triggers⟩ c e=⟨c,triggers⟩ := by
    intro hn
    have hh : handsOver b (.work e)=[] := by
      unfold handsOver
      cases hw : b.worker with
      | collected batch trigger => exact absurd hw (hn batch trigger)
      | _ => rfl
    rw [worked,hh,List.append_nil]
  rw [Batcher.work] at hstep
  rw [Follows,hq.served] at hf
  simp only [Stands] at hs
  cases hw : b.worker with
  | popping =>
    rw [hsilent (fun _ _ => by rw [hw]; exact nofun)]
    simp only [hw] at hstep hs
    rw [hw] at hf
    obtain ⟨⟨hnow,htested⟩,_⟩ := hf
    cases hp : b.guarded.pop with
    | none =>
      rw [hp] at hstep
      exact absurd hstep nofun
    | some answer =>
      rw [hp] at hstep
      obtain ⟨rfl,hc⟩ := pop_eq hp
      rcases hq.front with ⟨entry,rest,_,hb,he,hnext⟩ | ⟨hik,hb⟩
      · rw [take_cons hb] at hstep
        rw [←Option.some.inj hstep]
        refine ⟨i+1,htake hnext,?_⟩
        exact take_first (b := {b with guarded := {b.guarded with buffer := rest}}) hd he hnow
          htested hw hs
      · rw [take_nil hb] at hstep
        rw [←Option.some.inj hstep]
        refine ⟨i,hq.congr rfl rfl,?_⟩
        simp only [Forms,hw] at hs
        simp only [Stands,Forms]
        exact ⟨hs,fun _ => hik.trans (hq.ended (hc hb))⟩
  | filling batch deadline =>
    rw [hsilent (fun _ _ => by rw [hw]; exact nofun)]
    simp only [hw] at hstep hs
    rw [hw] at hf
    simp only [Forms,hw] at hs
    obtain ⟨hsh,opened,hfill,rfl⟩ := hs
    have hne := fills_ne_nil hm hi hfill
    have hlen := fills_length hfill
    rw [hf.1] at hstep
    by_cases hroom : batch.length<setup.config.maxBatchSize
    · rw [if_pos hroom] at hstep
      have hsize : ¬setup.config.maxBatchSize≤opened.members.length := by
        rw [←hlen]
        exact Nat.not_le.mpr hroom
      by_cases htime : opened.deadline-T.remainingAt i≤0
      · rw [if_pos htime] at hstep
        rw [←Option.some.inj hstep]
        refine ⟨i,hq.congr rfl rfl,close_batch .timeout hne hfill hsh ?_ ?_⟩
        · rw [closes,if_neg hsize,if_pos htime]
        · simp only [finish,if_neg (hlen ▸ hsize)]
          rfl
      · rw [if_neg htime] at hstep
        rw [←Option.some.inj hstep]
        refine ⟨i,hq.congr rfl rfl,?_⟩
        simp only [Stands,Forms]
        refine ⟨⟨hsh,opened,hfill,rfl⟩,fun other ho => ?_⟩
        rw [hfill.1] at ho
        rw [←Option.some.inj ho]
        exact ⟨hlen ▸ hroom,not_le.mp htime⟩
    · rw [if_neg hroom] at hstep
      rw [←Option.some.inj hstep]
      refine ⟨i,hq.congr rfl rfl,close_batch .size hne hfill hsh ?_ ?_⟩
      · rw [closes,if_pos (hlen ▸ Nat.not_lt.mp hroom)]
      · simp only [finish,if_pos (Nat.not_lt.mp hroom)]
        rfl
  | waiting batch deadline =>
    rw [hsilent (fun _ _ => by rw [hw]; exact nofun)]
    simp only [hw] at hstep hs
    rw [hw] at hf
    obtain ⟨⟨hnow,htested⟩,_,hwait⟩ := hf
    obtain ⟨hforms,hopen⟩ := hs
    simp only [Forms,hw] at hforms
    obtain ⟨hsh,opened,hfill,rfl⟩ := hforms
    obtain ⟨hroom,hpos⟩ := hopen opened hfill.1
    have hne := fills_ne_nil hm hi hfill
    have hlen := fills_length hfill
    have hsize : ¬setup.config.maxBatchSize≤opened.members.length := Nat.not_le.mpr hroom
    have htime : ¬opened.deadline-T.remainingAt i≤0 := not_le.mpr hpos
    cases hp : b.guarded.popFor e.expired with
    | none =>
      rw [hp] at hstep
      exact absurd hstep nofun
    | some answer =>
      rw [hp] at hstep
      rcases popFor_eq hp with ⟨rfl,hc⟩ | ⟨rfl,hb,hopen⟩
      · rcases hq.front with ⟨entry,rest,hik,hb,he,hnext⟩ | ⟨hik,hb⟩
        · have hin := hwait.mp (mayPop_iff.mpr (.inr (by rw [hb]; exact List.cons_ne_nil _ _)))
          have hcl : closes T setup.config.maxBatchSize i opened=none := by
            rw [closes,if_neg hsize,if_neg htime,if_pos hin,
              if_pos (Nat.lt_of_lt_of_le hik hq.within)]
          rw [take_cons hb] at hstep
          rw [←Option.some.inj hstep]
          refine ⟨i+1,htake hnext,?_⟩
          exact take_next (b := {b with guarded := {b.guarded with buffer := rest}}) hd he hnow
            htested hfill hsh hcl
        · have hend : i=T.count := hik.trans (hq.ended (hc hb))
          have hin := hwait.mp (mayPop_iff.mpr (.inl (hc hb)))
          have hcl : closes T setup.config.maxBatchSize i opened=some .shutdown := by
            rw [closes,if_neg hsize,if_neg htime,if_pos hin,
              if_neg (by rw [hend]; exact Nat.lt_irrefl _)]
          rw [take_nil hb] at hstep
          rw [←Option.some.inj hstep]
          refine ⟨i,hq.congr rfl rfl,?_⟩
          simp only [Stands,Forms]
          refine ⟨⟨hsh,opened,hfill⟩,hend,fun other ho => ?_⟩
          rw [hfill.1] at ho
          rw [←Option.some.inj ho]
          exact hcl
      · have hin : T.inTime i opened.deadline≠true := by
          intro hin
          rcases mayPop_iff.mp (hwait.mpr hin) with hc | hn
          · exact absurd (hopen.symm.trans hc) nofun
          · exact hn hb
        rw [←Option.some.inj hstep]
        refine ⟨i,hq.congr rfl rfl,close_batch .timeout hne hfill hsh ?_ ?_⟩
        · rw [closes,if_neg hsize,if_neg htime,if_neg hin]
        · simp only [finish,if_neg (hlen ▸ hsize)]
          rfl
  | draining batch =>
    rw [hsilent (fun _ _ => by rw [hw]; exact nofun)]
    simp only [hw] at hstep hs
    rw [hw] at hf
    obtain ⟨hforms,hend,hcl⟩ := hs
    simp only [Forms,hw] at hforms
    obtain ⟨hsh,opened,hfill⟩ := hforms
    have hcl := hcl opened hfill.1
    have hne := fills_ne_nil hm hi hfill
    have hlen := fills_length hfill
    have hsize : ¬setup.config.maxBatchSize≤batch.length := by
      intro hle
      rw [closes,if_pos (hlen ▸ hle)] at hcl
      exact absurd hcl nofun
    have hclosed : ∀ guarded, Stands setup T requests i
        ⟨{b with guarded := guarded, worker := finish setup batch .shutdown},triggers⟩ := by
      intro guarded
      refine close_batch .shutdown hne hfill hsh hcl ?_
      simp only [finish,if_neg hsize]
      rfl
    rw [if_pos (Nat.not_le.mp hsize)] at hstep
    rcases hq.front with ⟨entry,rest,hik,_⟩ | ⟨_,hb⟩
    · have hw := hq.within
      omega
    · rw [Guarded.tryPop,take_nil hb] at hstep
      have hdone : c={b with worker := finish setup batch .shutdown} := by
        cases hcb : b.guarded.closed with
        | true =>
          rw [hcb] at hstep
          exact (Option.some.inj hstep).symm
        | false =>
          rw [hcb] at hstep
          exact (Option.some.inj hstep).symm
      rw [hdone]
      exact ⟨i,hq.congr rfl rfl,hclosed b.guarded⟩
  | collected batch trigger =>
    simp only [hw] at hstep hs
    obtain ⟨hforms,hend⟩ := hs
    simp only [Forms,hw] at hforms
    obtain ⟨ho,hforms⟩ := hforms
    rw [worked,handsOver,hw]
    simp only
    by_cases hn : batch=[]
    · rw [if_pos hn] at hstep hforms
      rw [←Option.some.inj hstep,if_pos hn,List.append_nil]
      exact ⟨i,hq.congr rfl rfl,⟨ho,hforms⟩,hend hn⟩
    · rw [if_neg hn] at hstep hforms
      rw [←Option.some.inj hstep,if_neg hn]
      refine ⟨i,hq.congr rfl rfl,?_⟩
      simp only [Stands,Forms]
      rw [deliveredOf_append,droppedOf_append]
      refine ⟨ho,?_⟩
      exact (List.append_nil (droppedOf b.log)).symm ▸ hforms
  | handling =>
    rw [hsilent (fun _ _ => by rw [hw]; exact nofun)]
    simp only [hw] at hstep hs
    rw [←Option.some.inj hstep]
    refine ⟨i,hq.congr rfl rfl,?_⟩
    simp only [Forms,hw] at hs
    exact hs
  | returned =>
    simp only [hw,reduceCtorEq] at hstep

/-- Along every run that follows the timeline the queue holds what was accepted
and not taken, and the worker stands where the formation does. -/
theorem reaches_stands (hd : Encoded T requests)
    (h : ((formingMachine setup).guarded (Follows setup T requests)).Reaches v) :
    0<setup.config.maxBatchSize ∧
      ∃ i k, Queued T requests i k v.batcher ∧ Stands setup T requests i v := by
  refine h.invariant (P := fun v => 0<setup.config.maxBatchSize ∧
    ∃ i k, Queued T requests i k v.batcher ∧ Stands setup T requests i v) ?_ ?_
  · rintro ⟨b,triggers⟩ ⟨hb,rfl⟩
    obtain ⟨rfl,hm⟩ := made_eq hb
    exact ⟨hm,0,0,⟨le_rfl,Nat.zero_le _,nofun,rfl,rfl⟩,rfl,rfl,rfl,rfl⟩
  · rintro v action w ⟨hm,i,k,hq,hs⟩ ⟨hf,hstep,htr⟩
    have hw : w=⟨w.batcher,v.triggers++handsOver v.batcher action⟩ := by rw [←htr]
    refine ⟨hm,?_⟩
    rw [hw]
    by_cases hwork : ∃ e, action=.work e
    · obtain ⟨e,rfl⟩ := hwork
      obtain ⟨i,hq,hs⟩ := work_stands hd hm hq hs hf hstep
      exact ⟨i,k,hq,hs⟩
    · obtain ⟨⟨k,hq⟩,hsame,hlog⟩ := hq.call (fun e he => hwork ⟨e,he⟩) hf hstep
      have hh : handsOver v.batcher action=[] := by
        cases action with
        | work e => exact absurd ⟨e,rfl⟩ hwork
        | _ => rfl
      refine ⟨i,k,hq,?_⟩
      rw [hh,List.append_nil]
      simp only [Stands,Forms,hsame,hlog] at hs ⊢
      exact hs

/-- A worker that stands so forms the timeline's batches. -/
theorem Stands.forms (h : Stands setup T requests i v) :
    (∃ f, (f=before setup T i ∨ f=settled setup T i) ∧ Forms T requests f v) ∧
      (v.batcher.worker=.returned → i=T.count ∧ Forms T requests
        (formation T setup.config.maxBatchSize (setup.config.maxWait*1000)) v) := by
  simp only [Stands] at h
  cases hw : v.batcher.worker with
  | popping =>
    simp only [hw] at h
    exact ⟨⟨_,.inr rfl,h⟩,nofun⟩
  | filling batch deadline =>
    simp only [hw] at h
    exact ⟨⟨_,.inl rfl,h⟩,nofun⟩
  | waiting batch deadline =>
    simp only [hw] at h
    exact ⟨⟨_,.inl rfl,h.1⟩,nofun⟩
  | draining batch =>
    simp only [hw] at h
    exact ⟨⟨_,.inl rfl,h.1⟩,nofun⟩
  | collected batch trigger =>
    simp only [hw] at h
    exact ⟨⟨_,.inr rfl,h.1⟩,nofun⟩
  | handling =>
    simp only [hw] at h
    exact ⟨⟨_,.inr rfl,h⟩,nofun⟩
  | returned =>
    simp only [hw] at h
    obtain ⟨h,rfl⟩ := h
    exact ⟨⟨_,.inr rfl,h⟩,fun _ => ⟨rfl,h⟩⟩

/-- Along every run that follows the timeline the worker's batches and drops
are lawful, and when it has returned they are those of the timeline. -/
theorem worker_forms (hd : Encoded T requests)
    (h : ((formingMachine setup).guarded (Follows setup T requests)).Reaches v) :
    served v.batcher≤T.count ∧
      (∃ f, Lawful T setup.config.maxBatchSize (setup.config.maxWait*1000) (served v.batcher) f ∧
        Forms T requests f v) ∧
      (v.batcher.worker=.returned → served v.batcher=T.count ∧ Forms T requests
        (formation T setup.config.maxBatchSize (setup.config.maxWait*1000)) v) := by
  obtain ⟨hm,i,k,hq,hs⟩ := reaches_stands hd h
  obtain ⟨⟨f,hf,hforms⟩,hret⟩ := hs.forms
  have hi : i≤T.count := hq.taken.trans hq.within
  have hl : Lawful T setup.config.maxBatchSize (setup.config.maxWait*1000) i (before setup T i) :=
    upTo_lawful hm hi
  rw [hq.served]
  refine ⟨hi,⟨f,?_,hforms⟩,hret⟩
  rcases hf with rfl | rfl
  · exact hl
  · exact hl.settle hi

end Runs

section Completion

variable {setup : Setup} {T : Timeline ℤ} {requests : ℕ → Request}
variable {v w : Forming} {b c : Batcher} {i : ℕ}

/-- The batcher under the timeline. -/
abbrev timed (setup : Setup) (T : Timeline ℤ) (requests : ℕ → Request) : Machine Forming Action :=
  (formingMachine setup).guarded (Follows setup T requests)

/-- The queue holds `buffer`, is closed or not, and has accepted `k` requests. -/
structure Holds (k : ℕ) (buffer : List Entry) (closed : Bool) (b : Batcher) : Prop where
  guarded : b.guarded=⟨buffer,closed⟩
  accepted : b.accepted.length=k
  stopping : b.stopping=closed

/-- The requests accepted and no longer buffered. -/
theorem Holds.served {buffer : List Entry} {closed : Bool} {k : ℕ} (h : Holds k buffer closed b)
    (hk : k=i+buffer.length) : served b=i := by
  rw [WorkerTimelines.served,h.accepted,h.guarded,hk]
  exact Nat.add_sub_cancel _ _

/-- The readings that the timeline gives the worker before request `i`. -/
def envAt (T : Timeline ℤ) (i : ℕ) : Worker → Env
  | .filling _ _ => {now := T.remainingAt i, expired := true}
  | _ => {now := T.dequeuedAt i, tested := T.checkedAt i, expired := true}

/-- The clock counts from its start, and a wait that starts with any of the
timeline's readings ends at a time that is held. -/
structure Fits (setup : Setup) (T : Timeline ℤ) : Prop where
  started : 0≤T.remainingAt 0
  held : ∀ i≤T.count, T.dequeuedAt i+setup.config.maxWait*1000<2^63

/-- A deadline that is no further off than the wait that is configured. -/
def Near (setup : Setup) (T : Timeline ℤ) (i : ℕ) (deadline : ℤ) : Prop :=
  0≤deadline ∧ deadline≤T.remainingAt i+setup.config.maxWait*1000

/-- What a step of the worker needs before request `i`: its deadline is near,
and a timed wait finds what the timeline says. -/
def Allows (setup : Setup) (T : Timeline ℤ) (i : ℕ) (b : Batcher) : Prop :=
  match b.worker with
  | .popping => i≤T.count
  | .filling _ deadline => i≤T.count ∧ Near setup T i deadline
  | .waiting _ deadline => (i≤T.count ∧ Near setup T i deadline) ∧
      (b.guarded.mayPop=true ↔ T.inTime i deadline=true)
  | _ => True

/-- No reading is before the clock's start. -/
theorem Fits.nonneg (h : Fits setup T) (i : ℕ) : 0≤T.remainingAt i := by
  induction i with
  | zero => exact h.started
  | succ i ih => exact ih.trans (T.remaining_remaining i)

/-- A request is taken at a time from which the wait is held. -/
theorem Fits.taken (h : Fits setup T) (hm : 0 ≤ setup.config.maxWait) (hi : i≤T.count) :
    Holdable (setup.config.maxWait*1000) ∧
      Holdable (T.dequeuedAt i+setup.config.maxWait*1000) := by
  have h0 := h.nonneg i
  have hd := (T.waits i).trans (T.dequeues i)
  have hu := h.held i hi
  constructor <;> constructor <;> omega

/-- The time left until a near deadline is held. -/
theorem Fits.left (h : Fits setup T) (hm : 0 ≤ setup.config.maxWait) (hi : i≤T.count) {deadline : ℤ}
    (hn : Near setup T i deadline) : Holdable (deadline-T.remainingAt i) := by
  have h0 := h.nonneg i
  have hd := (T.waits i).trans (T.dequeues i)
  have hu := h.held i hi
  obtain ⟨hl,hr⟩ := hn
  constructor <;> omega

/-- The end of a wait until a near deadline is held. -/
theorem Fits.waited (h : Fits setup T) (hi : i≤T.count) {deadline : ℤ}
    (hn : Near setup T i deadline) : Holdable (T.timeoutAt i deadline) := by
  have hw := T.waits i
  have hd := T.dequeues i
  have hu := h.held i hi
  obtain ⟨hl,hr⟩ := hn
  rw [Timeline.timeoutAt]
  constructor <;> omega

/-- A deadline that was set, or was near, is near when the next request is
taken. -/
theorem Near.succ {deadline : ℤ} (h : Near setup T i deadline) : Near setup T (i+1) deadline :=
  ⟨h.1,h.2.trans (add_le_add_left (T.remaining_remaining i) _)⟩

theorem Fits.anchored (h : Fits setup T) (hm : 0 ≤ setup.config.maxWait) :
    Near setup T (i+1) (T.dequeuedAt i+setup.config.maxWait*1000) := by
  have h0 := h.nonneg i
  have hd := (T.waits i).trans (T.dequeues i)
  exact ⟨by omega,add_le_add_left (T.dequeued_remaining i) _⟩

/-- Some run that follows the timeline returns. -/
def Returns (setup : Setup) (T : Timeline ℤ) (requests : ℕ → Request) : Prop :=
  ∃ v, (timed setup T requests).Reaches v ∧ v.batcher.worker=.returned

/-- The run goes on to a batcher. -/
def Goes (setup : Setup) (T : Timeline ℤ) (requests : ℕ → Request) (b : Batcher) : Prop :=
  ∃ triggers, (timed setup T requests).Reaches ⟨b,triggers⟩

/-- A step of the worker at the timeline's readings. -/
theorem work_goes (hfit : Fits setup T) (hm : 0 ≤ setup.config.maxWait)
    (h : Goes setup T requests b) (hi : served b=i) (hw : Allows setup T i b)
    (hs : b.work setup (envAt T i b.worker)=some c) : Goes setup T requests c := by
  obtain ⟨triggers,h⟩ := h
  subst hi
  refine ⟨_,.step (a := .work (envAt T (served b) b.worker)) h ⟨?_,hs,rfl⟩⟩
  unfold Follows Reads
  unfold Allows at hw
  simp only
  cases hb : b.worker with
  | waiting batch deadline =>
    rw [hb] at hw
    exact ⟨⟨rfl,rfl⟩,hfit.waited hw.1.1 hw.1.2,hw.2⟩
  | popping =>
    rw [hb] at hw
    exact ⟨⟨rfl,rfl⟩,hfit.taken hm hw⟩
  | filling batch deadline =>
    rw [hb] at hw
    exact ⟨rfl,hfit.left hm hw.1 hw.2⟩
  | draining batch => exact ⟨rfl,rfl⟩
  | _ => trivial

/-- The next request is accepted. -/
theorem arrival_goes (h : Goes setup T requests b) (hb : Holds i [] false b) (hi : i<T.count)
    (hc : 0<setup.config.queueCapacity) : ∃ entry c, entry.request=requests i ∧
      Holds (i+1) [entry] false c ∧ c.worker=b.worker ∧ Goes setup T requests c := by
  obtain ⟨triggers,h⟩ := h
  let entry : Entry := ⟨b.calls.length,requests i⟩
  have hsub : (timed setup T requests).Reaches
      ⟨{b with calls := b.calls++[.pushing entry]},triggers⟩ :=
    .step (a := .submit (requests i)) h ⟨trivial,rfl,(List.append_nil _).symm⟩
  have hcall : (b.calls++[NativeBatcher.Call.pushing entry])[b.calls.length]?=
      some (.pushing entry) :=
    List.getElem?_concat_length
  have hpush : b.guarded.push setup.config.queueCapacity entry=some (b.guarded.accept entry) := by
    rw [hb.guarded,Guarded.push,if_pos (mayPush_iff.mpr (.inr hc))]
    rfl
  refine ⟨entry,Batcher.decide {b with calls := b.calls++[.pushing entry]} entry b.calls.length
    (b.guarded.accept entry),rfl,⟨?_,?_,hb.stopping⟩,rfl,triggers,?_⟩
  · rw [Batcher.decide,hb.guarded]
    rfl
  · change (b.accepted++[entry]).length=_
    rw [List.length_append,hb.accepted]
    rfl
  · refine .step (a := .offer b.calls.length) hsub ⟨?_,?_,(List.append_nil _).symm⟩
    · simp only [Follows]
      rw [hcall]
      exact fun _ _ => ⟨hb.accepted ▸ hi,congrArg requests hb.accepted.symm⟩
    · simp only [Batcher.step]
      rw [hcall]
      simp only [hpush]
      rfl

/-- The queue is closed behind the last request. -/
theorem ending_goes (h : Goes setup T requests b) (hb : Holds T.count [] false b) :
    ∃ c, Holds T.count [] true c ∧ c.worker=b.worker ∧ Goes setup T requests c := by
  obtain ⟨triggers,h⟩ := h
  have hset : (timed setup T requests).Reaches
      ⟨{b with stopping := true, first := .closing},triggers⟩ := by
    refine .step (a := .shutdown) h ⟨trivial,?_,(List.append_nil _).symm⟩
    simp only [Batcher.step,hb.stopping]
    rfl
  refine ⟨{b with
    guarded := {b.guarded with closed := true}, stopping := true, first := .joining},?_,rfl,
    triggers,.step (a := .close) hset ⟨hb.accepted,rfl,(List.append_nil _).symm⟩⟩
  refine ⟨?_,hb.accepted,rfl⟩
  rw [hb.guarded]

/-- A batch that was collected is handed over, or the worker returns. -/
theorem collected_goes (hfit : Fits setup T) (hm : 0 ≤ setup.config.maxWait) {batch : List Entry}
    {trigger : BatchTrigger} {buffer : List Entry} {closed : Bool}
    (h : Goes setup T requests b) (hw : b.worker=.collected batch trigger)
    (hb : Holds i buffer closed b) : Returns setup T requests ∨
      ∃ c, Goes setup T requests c ∧ c.worker=.popping ∧ Holds i buffer closed c := by
  have hallows : Allows setup T (served b) b := by
    rw [Allows,hw]
    trivial
  by_cases hn : batch=[]
  · obtain ⟨triggers,h⟩ := work_goes (c := {b with worker := .returned}) hfit hm h rfl hallows (by
      simp only [Batcher.work,hw]
      exact if_pos hn)
    exact .inl ⟨_,h,rfl⟩
  · have hgiven := work_goes (c := {b with log := b.log++[.delivered batch], worker := .handling})
      hfit hm h rfl hallows (by
        simp only [Batcher.work,hw]
        exact if_neg hn)
    exact .inr ⟨_,work_goes hfit hm hgiven rfl trivial rfl,rfl,hb.guarded,hb.accepted,hb.stopping⟩

/-- A worker that finds the queue closed and drained returns. -/
theorem closed_returns (hfit : Fits setup T) (hm : 0 ≤ setup.config.maxWait)
    (h : Goes setup T requests b) (hw : b.worker=.popping)
    (hb : Holds T.count [] true b) : Returns setup T requests := by
  have hdone : Goes setup T requests {b with worker := .collected [] .maxSize} := by
    refine work_goes (i := T.count) hfit hm h (hb.served rfl) ?_ ?_
    · rw [Allows,hw]
    simp only [Batcher.work,hw,hb.guarded]
    rfl
  obtain ⟨triggers,hr⟩ := work_goes (c := {b with worker := .returned}) hfit hm hdone rfl
    trivial rfl
  exact ⟨_,hr,rfl⟩

/-- The worker waits for a first request or is about to fill a batch whose
deadline is near. -/
def Collects (setup : Setup) (T : Timeline ℤ) (i : ℕ) (worker : Worker) : Prop :=
  worker=.popping ∨ ∃ batch deadline, worker=.filling batch deadline ∧ Near setup T i deadline

/-- A request that was taken leaves a worker that goes on collecting. -/
theorem taken_holds (setup : Setup) (e : Env) (entry : Entry) {dropped kept : Worker}
    {buffer : List Entry}
    (hb : Holds i buffer false b) (hd : Collects setup T i dropped)
    (hk : Collects setup T i kept) :
    Holds i [] false ({b with guarded := ⟨[],false⟩}.take setup e entry dropped kept) ∧
      Collects setup T i
        ({b with guarded := ⟨[],false⟩}.take setup e entry dropped kept).worker := by
  unfold Batcher.take
  split
  · exact ⟨⟨rfl,hb.accepted,hb.stopping⟩,hd⟩
  · exact ⟨⟨rfl,hb.accepted,hb.stopping⟩,hk⟩

/-- A popping worker takes the next request, or returns. -/
theorem popping_returns (hfit : Fits setup T) (hm : 0 ≤ setup.config.maxWait)
    (h : Goes setup T requests b) (hb : Holds i [] false b) (hi : i≤T.count)
    (hw : b.worker=.popping) (hcap : 0<setup.config.queueCapacity)
    (hnext : ∀ c, Goes setup T requests c → Holds (i+1) [] false c →
      Collects setup T (i+1) c.worker →
      i<T.count → Returns setup T requests) : Returns setup T requests := by
  rcases Nat.lt_or_eq_of_le hi with hi | rfl
  · obtain ⟨entry,c,_,hc,hsame,hg⟩ := arrival_goes h hb hi hcap
    rw [hw] at hsame
    have ht := taken_holds setup (envAt T i c.worker) entry hc (.inl rfl)
      (.inr ⟨[entry.stamp (T.dequeuedAt i)],T.dequeuedAt i+setup.config.maxWait*1000,rfl,
        hfit.anchored hm⟩)
    refine hnext _ (work_goes hfit hm hg (hc.served rfl) ?_ ?_) ht.1 ht.2 hi
    · rw [Allows,hsame]
      exact hi.le
    · simp only [Batcher.work,hsame,hc.guarded]
      rfl
  · obtain ⟨c,hc,hsame,hg⟩ := ending_goes h hb
    exact closed_returns hfit hm hg (hsame.trans hw) hc

/-- A worker in its timed wait takes the next request, or hands its batch
over. -/
theorem waiting_returns (hfit : Fits setup T) (hm : 0 ≤ setup.config.maxWait) {batch : List Entry}
    {deadline : ℤ} (h : Goes setup T requests b) (hb : Holds i [] false b) (hi : i≤T.count)
    (hw : b.worker=.waiting batch deadline) (hn : Near setup T i deadline)
    (hcap : 0<setup.config.queueCapacity)
    (hnext : ∀ c, Goes setup T requests c → Holds (i+1) [] false c →
      Collects setup T (i+1) c.worker →
      i<T.count → Returns setup T requests) : Returns setup T requests := by
  by_cases hin : T.inTime i deadline=true
  · rcases Nat.lt_or_eq_of_le hi with hi | rfl
    · obtain ⟨entry,c,_,hc,hsame,hg⟩ := arrival_goes h hb hi hcap
      rw [hw] at hsame
      have ht := taken_holds setup (envAt T i c.worker) entry hc
        (.inr ⟨batch,deadline,rfl,hn.succ⟩)
        (.inr ⟨batch++[entry.stamp (T.dequeuedAt i)],deadline,rfl,hn.succ⟩)
      refine hnext _ (work_goes hfit hm hg (hc.served rfl) ?_ ?_) ht.1 ht.2 hi
      · rw [Allows,hsame,hc.guarded]
        exact ⟨⟨hi.le,hn⟩,iff_of_true rfl hin⟩
      · simp only [Batcher.work,hsame,hc.guarded]
        rfl
    · obtain ⟨c,hc,hsame,hg⟩ := ending_goes h hb
      rw [hw] at hsame
      have hdrain : Goes setup T requests {c with worker := .draining batch} := by
        refine work_goes hfit hm hg (hc.served rfl) ?_ ?_
        · rw [Allows,hsame,hc.guarded]
          exact ⟨⟨le_rfl,hn⟩,iff_of_true rfl hin⟩
        · simp only [Batcher.work,hsame,hc.guarded]
          rfl
      have hdone : Goes setup T requests {c with worker := finish setup batch .shutdown} := by
        refine work_goes hfit hm hdrain rfl trivial ?_
        simp only [Batcher.work,hc.guarded]
        split <;> rfl
      rcases collected_goes hfit hm hdone rfl ⟨hc.guarded,hc.accepted,hc.stopping⟩ with hr | hr
      · exact hr
      · obtain ⟨d,hd,hp,hh⟩ := hr
        exact closed_returns hfit hm hd hp hh
  · have hdone : Goes setup T requests {b with worker := finish setup batch .timeout} := by
      refine work_goes hfit hm h (hb.served rfl) ?_ ?_
      · rw [Allows,hw,hb.guarded]
        exact ⟨⟨hi,hn⟩,iff_of_false nofun hin⟩
      · simp only [Batcher.work,hw,hb.guarded]
        rfl
    rcases collected_goes hfit hm hdone rfl ⟨hb.guarded,hb.accepted,hb.stopping⟩ with hr | hr
    · exact hr
    · obtain ⟨d,hd,hp,hh⟩ := hr
      exact popping_returns hfit hm hd hh hi hp hcap hnext

/-- A worker that fills a batch waits for the next request, or hands its batch
over. -/
theorem filling_returns (hfit : Fits setup T) (hm : 0 ≤ setup.config.maxWait) {batch : List Entry}
    {deadline : ℤ} (h : Goes setup T requests b) (hb : Holds i [] false b) (hi : i≤T.count)
    (hw : b.worker=.filling batch deadline) (hn : Near setup T i deadline)
    (hcap : 0<setup.config.queueCapacity)
    (hnext : ∀ c, Goes setup T requests c → Holds (i+1) [] false c →
      Collects setup T (i+1) c.worker →
      i<T.count → Returns setup T requests) : Returns setup T requests := by
  have hallows : Allows setup T i b := by
    rw [Allows,hw]
    exact ⟨hi,hn⟩
  have hclosed : ∀ trigger, b.work setup (envAt T i b.worker)=
      some {b with worker := finish setup batch trigger} → Returns setup T requests := by
    intro trigger hs
    have hdone := work_goes hfit hm h (hb.served rfl) hallows hs
    rcases collected_goes hfit hm hdone rfl ⟨hb.guarded,hb.accepted,hb.stopping⟩ with hr | hr
    · exact hr
    · obtain ⟨d,hd,hp,hh⟩ := hr
      exact popping_returns hfit hm hd hh hi hp hcap hnext
  by_cases hroom : batch.length<setup.config.maxBatchSize
  · by_cases htime : deadline-T.remainingAt i≤0
    · refine hclosed .timeout ?_
      simp only [Batcher.work,hw,envAt]
      rw [if_pos hroom,if_pos htime]
    · have hwait : Goes setup T requests {b with worker := .waiting batch deadline} := by
        refine work_goes hfit hm h (hb.served rfl) hallows ?_
        simp only [Batcher.work,hw,envAt]
        rw [if_pos hroom,if_neg htime]
      exact waiting_returns hfit hm hwait ⟨hb.guarded,hb.accepted,hb.stopping⟩ hi rfl hn hcap
        hnext
  · refine hclosed .maxSize ?_
    simp only [Batcher.work,hw]
    rw [if_neg hroom]

/-- Settings that passed their check: the queue has room, and the wait is not
negative. -/
theorem validate_settings (h : setup.config.validate=.ok ()) :
    0<setup.config.queueCapacity ∧ 0 ≤ setup.config.maxWait := by
  unfold RuntimeConfig.validate at h
  split_ifs at h with _ hc _ _ hw
  exact ⟨Nat.pos_of_ne_zero hc,not_lt.mp hw⟩

/-- Every timeline is followed by a run in which the worker returns. -/
theorem worker_returns (hfit : Fits setup T) (h : setup.config.validate=.ok ()) :
    Returns setup T requests := by
  obtain ⟨hcap,hm⟩ := validate_settings h
  have hall : ∀ n i, T.count-i=n → i≤T.count → ∀ b, Goes setup T requests b →
      Holds i [] false b → Collects setup T i b.worker → Returns setup T requests := by
    intro n
    induction n using Nat.strong_induction_on with
    | _ n ih =>
      intro i hn hi b hr hq hs
      have hnext : ∀ c, Goes setup T requests c → Holds (i+1) [] false c →
          Collects setup T (i+1) c.worker → i<T.count → Returns setup T requests :=
        fun c hr hq hs hlt => ih (T.count-(i+1)) (by omega) (i+1) rfl hlt c hr hq hs
      rcases hs with hs | ⟨batch,deadline,hs,hd⟩
      · exact popping_returns hfit hm hr hq hi hs hcap hnext
      · exact filling_returns hfit hm hr hq hi hs hd hcap hnext
  have hmade : NativeBatcher.make setup=.ok {} := by
    rw [NativeBatcher.make,h]
    rfl
  exact hall T.count 0 rfl (Nat.zero_le _) {} ⟨[],.start ⟨hmade,rfl⟩⟩ ⟨rfl,rfl,rfl⟩ (.inl rfl)

/-- Where no 64-bit count holds the wait in nanoseconds, the worker takes
nothing and never returns. -/
theorem worker_stuck (hlong : ¬Holdable (setup.config.maxWait*1000)) :
    ¬Returns setup T requests := by
  rintro ⟨v,hr,hv⟩
  have hpop : v.batcher.worker=.popping ∧ ∃ k, Queued T requests 0 k v.batcher := by
    refine hr.invariant (P := fun v => v.batcher.worker=.popping ∧
      ∃ k, Queued T requests 0 k v.batcher) ?_ ?_
    · rintro ⟨b,triggers⟩ ⟨hb,_⟩
      obtain ⟨rfl,_⟩ := made_eq hb
      exact ⟨rfl,0,le_rfl,Nat.zero_le _,nofun,rfl,rfl⟩
    · rintro v action w ⟨hp,k,hq⟩ ⟨hf,hstep,_⟩
      have hw : ∀ e, action≠.work e := by
        rintro e rfl
        rw [Follows,hp] at hf
        exact hlong hf.2.1
      obtain ⟨hk,hsame,_⟩ := hq.call hw hf hstep
      exact ⟨hsame.trans hp,hk⟩
  exact absurd (hpop.1.symm.trans hv) nofun

end Completion

end CudaForge.WorkerTimelines
