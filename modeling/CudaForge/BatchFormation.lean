import Mathlib.Tactic

/-!
# Batches formed along a timeline

Requests come one after the other, with deadlines, and one collector forms
batches of them. A timeline says when each request comes and what the clock
reads at each point of the collection; it determines the batches. They hold
the requests that had not expired, in order of arrival; the deadline of a
batch is anchored at its first member, and a batch that is not full is closed
by that deadline or by the end of the timeline.
-/

namespace CudaForge.BatchFormation

/-- Requests 0, 1, … and the end of submissions, with the clock readings of
one collector. -/
structure Timeline (Time : Type) [LinearOrder Time] where
  /-- How many requests come before the end. -/
  count : ℕ
  /-- The time past which a request is worthless, if it has one. -/
  deadline : ℕ → Option Time
  /-- When a request comes; at `count`, when the end does. -/
  arrivedAt : ℕ → Time
  /-- The reading that gives the time left to fill a batch, before a request
  is taken. -/
  remainingAt : ℕ → Time
  /-- When the wait for that request starts. -/
  waitedFrom : ℕ → Time
  /-- The reading when the request is taken. -/
  dequeuedAt : ℕ → Time
  /-- The reading that its deadline is checked against. -/
  checkedAt : ℕ → Time
  arrives : ∀ i, arrivedAt i≤arrivedAt (i+1)
  taken : ∀ i, arrivedAt i≤dequeuedAt i
  waits : ∀ i, remainingAt i≤waitedFrom i
  dequeues : ∀ i, waitedFrom i≤dequeuedAt i
  checks : ∀ i, dequeuedAt i≤checkedAt i
  goesOn : ∀ i, checkedAt i≤remainingAt (i+1)

section Readings

variable {Time : Type} [LinearOrder Time] (T : Timeline Time) (i : ℕ)

/-- A request is taken before the time left for the next one is read. -/
theorem Timeline.dequeued_remaining : T.dequeuedAt i≤T.remainingAt (i+1) :=
  (T.checks i).trans (T.goesOn i)

/-- The time left is read later for every request. -/
theorem Timeline.remaining_remaining : T.remainingAt i≤T.remainingAt (i+1) :=
  ((T.waits i).trans (T.dequeues i)).trans (T.dequeued_remaining i)

end Readings

/-- Why a batch is closed. -/
inductive Closing where
  /-- It is full. -/
  | size
  /-- Its deadline has passed. -/
  | timeout
  /-- The submissions have ended and nothing is left. -/
  | shutdown
  deriving DecidableEq

/-- A batch that is being filled. -/
structure Opened (Time : Type) where
  /-- Its requests, in order of arrival. -/
  members : List ℕ
  /-- When it closes at the latest. -/
  deadline : Time

/-- A batch that was closed. -/
structure Closed (Time : Type) extends Opened Time where
  /-- Why it was closed. -/
  closing : Closing
  /-- How many requests had been taken by then. -/
  dequeued : ℕ

/-- What became of the requests taken so far. -/
structure Formation (Time : Type) where
  /-- The closed batches, in the order in which they were closed. -/
  closed : List (Closed Time) := []
  /-- The requests dropped for their deadline. -/
  dropped : List ℕ := []
  /-- The batch that is being filled. -/
  opened : Option (Opened Time) := none

section Forming

variable {Time : Type} [AddCommGroup Time] [LinearOrder Time]
variable (T : Timeline Time) (maxSize : ℕ) (maxWait : Time)

/-- The request had expired when it was taken. -/
def Timeline.expired (i : ℕ) : Bool :=
  match T.deadline i with
  | none => false
  | some deadline => decide (deadline≤T.checkedAt i)

/-- When a wait for a request ends that has until `deadline`. -/
def Timeline.timeoutAt (i : ℕ) (deadline : Time) : Time :=
  T.waitedFrom i+(deadline-T.remainingAt i)

/-- The request, or the end, comes before the wait for it ends. -/
def Timeline.inTime (i : ℕ) (deadline : Time) : Bool :=
  decide (T.arrivedAt i<T.timeoutAt i deadline)

/-- Whether a batch is closed before request `i` is taken, and why. -/
def closes (i : ℕ) (batch : Opened Time) : Option Closing :=
  if maxSize ≤ batch.members.length then some .size
  else if batch.deadline-T.remainingAt i≤0 then some .timeout
  else if T.inTime i batch.deadline then if i<T.count then none else some .shutdown
  else some .timeout

/-- Close the batch that is being filled, if it is to be closed. -/
def settle (i : ℕ) (f : Formation Time) : Formation Time :=
  match f.opened with
  | none => f
  | some batch =>
    match closes T maxSize i batch with
    | none => f
    | some closing => {f with
        closed := f.closed++[{batch with closing := closing, dequeued := i}]
        opened := none}

/-- The batch that a live request opens or joins. -/
def joined (i : ℕ) : Option (Opened Time) → Opened Time
  | none => ⟨[i],T.dequeuedAt i+maxWait⟩
  | some batch => {batch with members := batch.members++[i]}

/-- Take request `i`. -/
def take (i : ℕ) (f : Formation Time) : Formation Time :=
  if T.expired i then {f with dropped := f.dropped++[i]}
  else {f with opened := some (joined T maxWait i f.opened)}

/-- What became of the first requests. -/
def upTo : ℕ → Formation Time
  | 0 => {}
  | i+1 => take T maxWait i (settle T maxSize i (upTo i))

/-- The batches and drops of the whole timeline. -/
def formation : Formation Time := settle T maxSize T.count (upTo T maxSize maxWait T.count)

/-- The requests of a batch and its deadline. -/
structure Anchored (batch : Opened Time) : Prop where
  /-- It holds no more than it may. -/
  within : batch.members.length ≤ maxSize
  /-- Its deadline counts from when its first request was taken. -/
  anchored : ∃ first rest, batch.members=first::rest ∧
    batch.deadline=T.dequeuedAt first+maxWait

/-- What a closed batch is closed for. -/
def ClosedFor (batch : Closed Time) : Prop :=
  match batch.closing with
  | .size => batch.members.length=maxSize
  | .timeout => batch.members.length < maxSize ∧
      (batch.deadline≤T.remainingAt batch.dequeued ∨
        batch.deadline≤T.timeoutAt batch.dequeued batch.deadline ∧
          T.timeoutAt batch.dequeued batch.deadline≤T.arrivedAt batch.dequeued)
  | .shutdown => batch.members.length < maxSize ∧ batch.dequeued=T.count

/-- The law of batch formation, for the requests taken so far. -/
structure Lawful (taken : ℕ) (f : Formation Time) : Prop where
  /-- The batches are the requests that had not expired, in order of arrival. -/
  live : f.closed.flatMap (fun batch => batch.members)++
      (f.opened.map (fun batch => batch.members)).getD []=
    (List.range taken).filter (fun i => !T.expired i)
  /-- The others were dropped, in order of arrival. -/
  drops : f.dropped=(List.range taken).filter T.expired
  /-- Every batch has its size and its anchored deadline. -/
  anchored : (∀ batch∈f.closed, Anchored T maxSize maxWait batch.toOpened) ∧
    ∀ batch∈f.opened, Anchored T maxSize maxWait batch
  /-- Every batch is closed for its reason. -/
  closings : ∀ batch∈f.closed, ClosedFor T maxSize batch

variable {T : Timeline Time} {maxSize : ℕ} {maxWait : Time} {i : ℕ} {f : Formation Time}

/-- A batch that is not closed yet has room, time, and a request to come. -/
theorem closes_none {batch : Opened Time} (h : closes T maxSize i batch=none) :
    batch.members.length < maxSize ∧ i<T.count := by
  unfold closes at h
  split_ifs at h with hs _ _ hi
  exact ⟨Nat.not_le.mp hs,hi⟩

theorem settle_none {batch : Opened Time} (ho : f.opened=some batch)
    (hc : closes T maxSize i batch=none) : settle T maxSize i f=f := by
  rw [settle,ho]
  simp only [hc]

theorem settle_some {batch : Opened Time} {closing : Closing} (ho : f.opened=some batch)
    (hc : closes T maxSize i batch=some closing) :
    settle T maxSize i f={f with
      closed := f.closed++[{batch with closing := closing, dequeued := i}], opened := none} := by
  rw [settle,ho]
  simp only [hc]

theorem settle_closed (ho : f.opened=none) : settle T maxSize i f=f := by
  rw [settle,ho]

/-- A batch that stays open after the others were settled is not closed yet. -/
theorem settle_opened {batch : Opened Time} (ho : (settle T maxSize i f).opened=some batch) :
    f.opened=some batch ∧ closes T maxSize i batch=none ∧ settle T maxSize i f=f := by
  cases hf : f.opened with
  | none =>
    rw [settle_closed hf,hf] at ho
    exact absurd ho nofun
  | some other =>
    cases hc : closes T maxSize i other with
    | none =>
      rw [settle_none hf hc,hf] at ho
      obtain rfl := Option.some.inj ho
      exact ⟨rfl,hc,settle_none hf hc⟩
    | some closing =>
      rw [settle_some hf hc] at ho
      exact absurd ho nofun

/-- The requests taken so far, and one more. -/
theorem filter_succ (p : ℕ → Bool) (i : ℕ) :
    (List.range (i+1)).filter p=(List.range i).filter p++if p i then [i] else [] := by
  rw [List.range_succ,List.filter_append,List.filter_singleton,cond_eq_ite]

/-- Taking one more request keeps the law where a batch that is open has
room. -/
theorem Lawful.take (h : Lawful T maxSize maxWait i f) (hm : 0 < maxSize)
    (hroom : ∀ batch∈f.opened, batch.members.length < maxSize) :
    Lawful T maxSize maxWait (i+1) (take T maxWait i f) := by
  unfold BatchFormation.take
  by_cases he : T.expired i=true
  · rw [if_pos he]
    refine ⟨?_,?_,h.anchored,h.closings⟩
    · rw [filter_succ,he,h.live]
      exact (List.append_nil _).symm
    · rw [filter_succ,if_pos he,h.drops]
  · rw [if_neg he]
    have hf := Bool.eq_false_iff.mpr he
    refine ⟨?_,?_,⟨h.anchored.1,?_⟩,h.closings⟩
    · have hl := h.live
      rw [filter_succ,hf,←hl,List.append_assoc]
      congr 1
      cases f.opened <;> rfl
    · rw [filter_succ,if_neg he,h.drops,List.append_nil]
    · intro batch hb
      obtain rfl := Option.some.inj hb
      cases ho : f.opened with
      | none => exact ⟨hm,i,[],rfl,rfl⟩
      | some open' =>
        obtain ⟨_,first,rest,hmem,hd⟩ := h.anchored.2 open' ho
        refine ⟨?_,first,rest++[i],?_,hd⟩
        · rw [joined,List.length_append]
          exact hroom open' ho
        · rw [joined,hmem,List.cons_append]

section Law

variable [IsOrderedAddMonoid Time]

/-- A batch is closed for the reason that is given. -/
theorem closes_for {batch : Opened Time} {closing : Closing}
    (hw : batch.members.length ≤ maxSize) (hi : i≤T.count)
    (h : closes T maxSize i batch=some closing) :
    ClosedFor T maxSize {batch with closing := closing, dequeued := i} := by
  unfold closes at h
  split_ifs at h with hs hr hin hlt
  · obtain rfl := Option.some.inj h
    exact Nat.le_antisymm hw hs
  · obtain rfl := Option.some.inj h
    exact ⟨Nat.not_le.mp hs,.inl (sub_nonpos.mp hr)⟩
  · obtain rfl := Option.some.inj h
    exact ⟨Nat.not_le.mp hs,Nat.le_antisymm hi (Nat.not_lt.mp hlt)⟩
  · obtain rfl := Option.some.inj h
    refine ⟨Nat.not_le.mp hs,.inr ⟨?_,not_lt.mp (fun hlt => hin (decide_eq_true hlt))⟩⟩
    calc batch.deadline=T.remainingAt i+(batch.deadline-T.remainingAt i) := by abel
      _≤T.waitedFrom i+(batch.deadline-T.remainingAt i) := add_le_add_left (T.waits i) _

/-- Settling keeps the law. -/
theorem Lawful.settle (h : Lawful T maxSize maxWait i f) (hi : i≤T.count) :
    Lawful T maxSize maxWait i (settle T maxSize i f) := by
  cases hf : f.opened with
  | none => rwa [settle_closed hf]
  | some batch =>
    cases hc : closes T maxSize i batch with
    | none => rwa [settle_none hf hc]
    | some closing =>
      rw [settle_some hf hc]
      have ha := h.anchored.2 batch hf
      refine ⟨?_,h.drops,⟨?_,nofun⟩,?_⟩
      · have hl := h.live
        rw [hf] at hl
        rw [List.flatMap_append,List.flatMap_singleton,←hl]
        exact List.append_nil _
      · intro other hm
        rcases List.mem_append.mp hm with hm | hm
        · exact h.anchored.1 other hm
        · rw [List.mem_singleton.mp hm]
          exact ha
      · intro other hm
        rcases List.mem_append.mp hm with hm | hm
        · exact h.closings other hm
        · rw [List.mem_singleton.mp hm]
          exact closes_for ha.within hi hc

/-- The first requests of a timeline are batched lawfully. -/
theorem upTo_lawful (hm : 0 < maxSize) (hi : i≤T.count) :
    Lawful T maxSize maxWait i (upTo T maxSize maxWait i) := by
  induction i with
  | zero => exact ⟨rfl,rfl,⟨nofun,nofun⟩,nofun⟩
  | succ i ih =>
    refine ((ih (Nat.le_of_succ_le hi)).settle (Nat.le_of_succ_le hi)).take hm ?_
    exact fun batch hb => (closes_none (settle_opened hb).2.1).1

end Law

end Forming

/-- The same timeline as another clock shows it. -/
def Timeline.read {Time Time' : Type} [LinearOrder Time] [LinearOrder Time'] {φ : Time → Time'}
    (hφ : Monotone φ) (T : Timeline Time) : Timeline Time' where
  count := T.count
  deadline i := (T.deadline i).map φ
  arrivedAt i := φ (T.arrivedAt i)
  remainingAt i := φ (T.remainingAt i)
  waitedFrom i := φ (T.waitedFrom i)
  dequeuedAt i := φ (T.dequeuedAt i)
  checkedAt i := φ (T.checkedAt i)
  arrives i := hφ (T.arrives i)
  taken i := hφ (T.taken i)
  waits i := hφ (T.waits i)
  dequeues i := hφ (T.dequeues i)
  checks i := hφ (T.checks i)
  goesOn i := hφ (T.goesOn i)

section Rescaling

variable {Time Time' : Type} [AddCommGroup Time] [LinearOrder Time] [AddCommGroup Time']
variable [LinearOrder Time'] {φ : Time →+ Time'} (hφ : StrictMono φ)
variable {T : Timeline Time} {maxSize i : ℕ} {maxWait : Time}

/-- The same timeline on another clock that runs the same way. -/
def Timeline.rescale (T : Timeline Time) : Timeline Time' := T.read hφ.monotone

/-- A batch with its deadline on the other clock. -/
def Opened.rescale (φ : Time → Time') (batch : Opened Time) : Opened Time' :=
  ⟨batch.members,φ batch.deadline⟩

/-- A closed batch with its deadline on the other clock. -/
def Closed.rescale (φ : Time → Time') (batch : Closed Time) : Closed Time' :=
  {batch.toOpened.rescale φ with closing := batch.closing, dequeued := batch.dequeued}

/-- What became of requests, with the deadlines on the other clock. -/
def Formation.rescale (φ : Time → Time') (f : Formation Time) : Formation Time' :=
  ⟨f.closed.map (Closed.rescale φ),f.dropped,f.opened.map (Opened.rescale φ)⟩

theorem rescale_expired (T : Timeline Time) (i : ℕ) :
    (T.rescale hφ).expired i=T.expired i := by
  unfold Timeline.expired
  change (match (T.deadline i).map φ with
    | none => false
    | some deadline => decide (deadline≤φ (T.checkedAt i)))=_
  cases T.deadline i with
  | none => rfl
  | some deadline => exact decide_eq_decide.mpr hφ.le_iff_le

theorem rescale_timeoutAt (T : Timeline Time) (i : ℕ) (deadline : Time) :
    (T.rescale hφ).timeoutAt i (φ deadline)=φ (T.timeoutAt i deadline) := by
  rw [Timeline.timeoutAt,Timeline.timeoutAt,map_add,map_sub]
  rfl

theorem rescale_inTime (T : Timeline Time) (i : ℕ) (deadline : Time) :
    (T.rescale hφ).inTime i (φ deadline)=T.inTime i deadline := by
  rw [Timeline.inTime,Timeline.inTime,rescale_timeoutAt]
  exact decide_eq_decide.mpr hφ.lt_iff_lt

theorem rescale_closes (T : Timeline Time) (maxSize i : ℕ) (batch : Opened Time) :
    closes (T.rescale hφ) maxSize i (batch.rescale φ)=closes T maxSize i batch := by
  have hr : (batch.rescale φ).deadline-(T.rescale hφ).remainingAt i≤0 ↔
      batch.deadline-T.remainingAt i≤0 := by
    change φ batch.deadline-φ (T.remainingAt i)≤0 ↔ _
    rw [←map_sub,←map_zero φ]
    exact hφ.le_iff_le
  have hi : (T.rescale hφ).inTime i (batch.rescale φ).deadline=T.inTime i batch.deadline :=
    rescale_inTime hφ T i batch.deadline
  unfold closes
  simp only [hr,hi]
  rfl

theorem rescale_settle (T : Timeline Time) (maxSize i : ℕ) (f : Formation Time) :
    settle (T.rescale hφ) maxSize i (f.rescale φ)=(settle T maxSize i f).rescale φ := by
  cases ho : f.opened with
  | none =>
    have hr : (f.rescale φ).opened=none := congrArg (Option.map (Opened.rescale φ)) ho
    rw [settle_closed ho,settle_closed hr]
  | some batch =>
    have hr : (f.rescale φ).opened=some (batch.rescale φ) :=
      congrArg (Option.map (Opened.rescale φ)) ho
    cases hc : closes T maxSize i batch with
    | none => rw [settle_none ho hc,settle_none hr ((rescale_closes hφ T maxSize i batch).trans hc)]
    | some closing =>
      rw [settle_some ho hc,settle_some hr ((rescale_closes hφ T maxSize i batch).trans hc)]
      simp only [Formation.rescale,List.map_append,List.map_singleton,Option.map_none]
      rfl

theorem rescale_take (T : Timeline Time) (maxWait : Time) (i : ℕ) (f : Formation Time) :
    take (T.rescale hφ) (φ maxWait) i (f.rescale φ)=(take T maxWait i f).rescale φ := by
  unfold take
  rw [rescale_expired]
  split
  · rfl
  · have hj : joined (T.rescale hφ) (φ maxWait) i (f.rescale φ).opened=
        (joined T maxWait i f.opened).rescale φ := by
      change joined (T.rescale hφ) (φ maxWait) i (f.opened.map (Opened.rescale φ))=_
      cases f.opened with
      | none =>
        change (⟨[i],φ (T.dequeuedAt i)+φ maxWait⟩ : Opened Time')=_
        rw [←map_add]
        rfl
      | some batch => rfl
    rw [hj]
    rfl

/-- On another clock the same batches are formed, for the same reasons. -/
theorem rescale_formation (T : Timeline Time) (maxSize : ℕ) (maxWait : Time) :
    formation (T.rescale hφ) maxSize (φ maxWait)=(formation T maxSize maxWait).rescale φ := by
  have hu : ∀ i, upTo (T.rescale hφ) maxSize (φ maxWait) i=
      (upTo T maxSize maxWait i).rescale φ := by
    intro i
    induction i with
    | zero => rfl
    | succ i ih => rw [upTo,upTo,ih,rescale_settle,rescale_take]
  rw [formation,formation,←rescale_settle,←hu]
  rfl

end Rescaling

end CudaForge.BatchFormation
