import CudaForge.ExceptionState
import CudaForge.QueueWakeups

/-!
# Exceptions inside the blocking queue

A move of an item, or the deque's allocation, may throw in a section that
gets as far as its buffer. Nothing has been assigned by then and nothing is
notified, so the data is as it was. A thread that was woken and throws has
used up its wakeup all the same. What a waiter is sure to be woken by
survives such an exception when the other wakeups cover the stock without
it, or every waiter has a notification of its own to come.
-/

namespace CudaForge.QueueExceptions

open ConcurrentQueue ExceptionState QueueOrder QueueWakeups ThreadPools TransitionRuns

variable {α : Type}

/-- A move or an allocation threw. -/
inductive Thrown where
  | thrown

/-- The statements of a section, over the fields that the mutex guards. -/
abbrev Section (α β : Type) := EStateM Thrown (Guarded α) β

/-- `buffer_.push_back`: what throws in it throws before the deque changes. -/
def pushBack (throws : Bool) (value : α) : Section α QueueStatus := do
  if throws then throw .thrown
  modify (fun g => {g with buffer := g.buffer++[value]})
  pure .ok

/-- The front is moved out, which may throw, and then popped; an empty buffer
gives `status`. -/
def moveFront (throws : Bool) (status : QueueStatus) : Section α (QueueStatus×Option α) := do
  let g ← get
  match g.buffer with
  | [] => pure (status,none)
  | item::rest => do
    if throws then throw .thrown
    modify (fun g => {g with buffer := rest})
    pure (.ok,some item)

/-- The section of an operation from the point where its predicate is looked
at; nothing when it has to wait. -/
def statements (capacity : ℕ) (throws expired : Bool) :
    Operation α → Section α (Option (QueueStatus×Option α))
  | .push value => do
    let g ← get
    if g.mayPush capacity then
      if g.closed then pure (some (.closed,none))
      else do
        let status ← pushBack throws value
        pure (some (status,none))
    else pure none
  | .tryPush value => do
    let g ← get
    if g.closed then pure (some (.closed,none))
    else if capacity ≤ g.buffer.length then pure (some (.full,none))
    else do
      let status ← pushBack throws value
      pure (some (status,none))
  | .pop => do
    let g ← get
    if g.mayPop then some <$> moveFront throws .closed else pure none
  | .popFor => do
    let g ← get
    if g.mayPop then some <$> moveFront throws .closed
    else if expired then pure (some (.timeout,none))
    else pure none
  | .tryPop => do
    let g ← get
    some <$> moveFront throws (if g.closed then .closed else .empty)

/-- How a section ends whose predicate gives this answer. -/
def ended (g : Guarded α) (throws : Bool) :
    Option (Answer α) → EStateM.Result Thrown (Guarded α) (Option (QueueStatus×Option α))
  | none => .ok none g
  | some answer =>
    if throws && decide (answer.status=.ok) then .error .thrown g
    else .ok (some (answer.status,answer.item)) answer.after

variable {capacity : ℕ} {g : Guarded α} {q q' : Queue α} {operation : Operation α}
  {condition : Condition}

theorem pushBack_eq (throws : Bool) (value : α) (g : Guarded α) :
    (do let status ← pushBack throws value; pure (some (status,none)) :
      Section α (Option (QueueStatus×Option α))) g=ended g throws (some (g.accept value)) := by
  cases throws <;> rfl

theorem moveFront_eq (throws : Bool) (status : QueueStatus) (hs : status≠.ok) (g : Guarded α) :
    (some <$> moveFront throws status : Section α (Option (QueueStatus×Option α))) g=
      ended g throws (some (g.take status)) := by
  cases hb : g.buffer with
  | nil =>
    have hm : moveFront throws status g=.ok (status,none) g := by
      rw [moveFront,bind_get,hb]
      rfl
    rw [map_ok hm,take_nil hb,ended,if_neg]
    · rfl
    · rw [Bool.and_eq_true,decide_eq_true_iff]
      exact fun h => hs h.2
  | cons item rest =>
    rw [take_cons hb]
    cases throws with
    | true =>
      have hm : moveFront true status g=.error .thrown g := by
        rw [moveFront,bind_get,hb]
        rfl
      exact map_error hm _
    | false =>
      have hm : moveFront false status g=.ok (.ok,some item) {g with buffer := rest} := by
        rw [moveFront,bind_get,hb]
        rfl
      exact map_ok hm _

/-- The statements of a section do what its predicate and answer say, except
that a move which throws ends it with the fields as they were. -/
theorem statements_eq (capacity : ℕ) (throws expired : Bool) (operation : Operation α)
    (g : Guarded α) :
    statements capacity throws expired operation g=
      ended g throws (g.attempt capacity expired operation) := by
  have hrefuse : ∀ status : QueueStatus, status≠.ok →
      ended g throws (some (g.refuse status))=.ok (some (status,none)) g := by
    intro status hs
    rw [ended,if_neg]
    · rfl
    · rw [Bool.and_eq_true,decide_eq_true_iff]
      exact fun h => hs h.2
  cases operation with
  | push value =>
    rw [statements,bind_get,Guarded.attempt,Guarded.push]
    by_cases hm : g.mayPush capacity=true
    · rw [if_pos hm,if_pos hm]
      by_cases hc : g.closed=true
      · rw [if_pos hc,if_pos hc]
        exact (hrefuse .closed (by intro hs; cases hs)).symm
      · rw [if_neg hc,if_neg hc]
        exact pushBack_eq throws value g
    · rw [if_neg hm,if_neg hm]
      rfl
  | tryPush value =>
    rw [statements,bind_get,Guarded.attempt,Guarded.tryPush]
    by_cases hc : g.closed=true
    · rw [if_pos hc,if_pos hc]
      exact (hrefuse .closed (by intro hs; cases hs)).symm
    · rw [if_neg hc,if_neg hc]
      by_cases hl : capacity ≤ g.buffer.length
      · rw [if_pos hl,if_pos hl]
        exact (hrefuse .full (by intro hs; cases hs)).symm
      · rw [if_neg hl,if_neg hl]
        exact pushBack_eq throws value g
  | pop =>
    rw [statements,bind_get,Guarded.attempt,Guarded.pop]
    by_cases hm : g.mayPop=true
    · rw [if_pos hm,if_pos hm]
      exact moveFront_eq throws .closed (by intro hs; cases hs) g
    · rw [if_neg hm,if_neg hm]
      rfl
  | popFor =>
    rw [statements,bind_get,Guarded.attempt,Guarded.popFor]
    by_cases hm : g.mayPop=true
    · rw [if_pos hm,if_pos hm]
      exact moveFront_eq throws .closed (by intro hs; cases hs) g
    · rw [if_neg hm,if_neg hm]
      by_cases he : expired=true
      · rw [if_pos he,if_pos he]
        exact (hrefuse .timeout (by intro hs; cases hs)).symm
      · rw [if_neg he,if_neg he]
        rfl
  | tryPop =>
    rw [statements,bind_get,Guarded.attempt,Guarded.tryPop]
    refine moveFront_eq throws _ ?_ g
    cases g.closed <;> (intro hs; cases hs)

/-- A step in which nothing throws, or one in which a move does. -/
inductive ThrowingAction (α : Type) where
  /-- Nothing throws. -/
  | quiet (action : Action α)
  /-- A thread calls an operation and its move throws. -/
  | callThrows (thread : ℕ) (operation : Operation α)
  /-- A woken thread takes the mutex again and its move throws. -/
  | resumeThrows (thread : ℕ)

/-- A section that throws ends the call, and the thread leaves the queue
without a notification. A section that moves nothing does not throw. -/
def throwing (capacity : ℕ) (q : Queue α) (thread : ℕ) (operation : Operation α)
    (expired : Bool) : Option (Queue α) :=
  match statements capacity true expired operation q.guarded with
  | .error _ left => some {q.move thread .idle with guarded := left}
  | .ok _ _ => none

/-- What a step does, if it can be taken now. -/
def step (capacity : ℕ) (q : Queue α) : ThrowingAction α → Option (Queue α)
  | .quiet action => q.step capacity action
  | .callThrows thread operation =>
    match q.threads[thread]? with
    | some .idle => throwing capacity q thread operation false
    | _ => none
  | .resumeThrows thread =>
    match q.threads[thread]? with
    | some (.woken operation expired) => throwing capacity q thread operation expired
    | _ => none

/-- The runs of a new queue whose moves may throw. -/
def throwingMachine (α : Type) (capacity : ℕ) : Machine (Queue α) (ThrowingAction α) where
  starts q := ∃ threads, make capacity threads=some q
  steps q action q' := step capacity q action=some q'

/-- The step is one in which a move throws. -/
def ThrowingAction.throws : ThrowingAction α → Bool
  | .quiet _ => false
  | _ => true

/-- Nobody is left parked beside an item, or beside a free slot, without a
wakeup to come. -/
def NoneStranded (capacity : ℕ) (q : Queue α) : Prop :=
  (q.guarded.buffer≠[] → Waited q .notEmpty → ∃ phase∈q.threads, Pending .notEmpty phase) ∧
    (q.guarded.buffer.length < capacity → Waited q .notFull →
      ∃ phase∈q.threads, Pending .notFull phase)

/-- A woken thread of the condition variable can be done without: nobody is
parked there, a broadcast is to come, the stock is covered by the
notifications and the other woken threads, or everybody parked has a
notification to come. -/
def Spare (capacity : ℕ) (q : Queue α) (condition : Condition) : Prop :=
  tally (Phase.parkedOn condition) q.threads=0 ∨
    0 < tally (Phase.willBroadcast condition) q.threads ∨
    stock capacity q.guarded condition+1≤
      tally (Phase.willNotify condition) q.threads+tally (Phase.wokenOn condition) q.threads ∨
    tally (Phase.parkedOn condition) q.threads≤tally (Phase.willNotify condition) q.threads

instance (q : Queue α) : Decidable (Spare capacity q condition) :=
  inferInstanceAs (Decidable (_ ∨ _ ∨ _ ∨ _))

/-- The condition variable that a thread was woken from. -/
def wokenFrom (q : Queue α) (thread : ℕ) : Option Condition :=
  match q.threads[thread]? with
  | some (.woken operation _) => operation.waitsOn
  | _ => none

/-- A woken thread whose move throws can be done without. -/
def Covered (capacity : ℕ) (q : Queue α) : ThrowingAction α → Prop
  | .resumeThrows thread => ∀ condition∈wokenFrom q thread, Spare capacity q condition
  | _ => True

instance (q : Queue α) : (action : ThrowingAction α) → Decidable (Covered capacity q action)
  | .quiet _ => inferInstanceAs (Decidable True)
  | .callThrows _ _ => inferInstanceAs (Decidable True)
  | .resumeThrows thread => inferInstanceAs (Decidable
      (∀ condition∈wokenFrom q thread, Spare capacity q condition))

/-- A call whose move throws leaves the data as it was and its thread outside
the queue; the operation would have succeeded. -/
theorem throwing_eq {thread : ℕ} {expired : Bool}
    (h : throwing capacity q thread operation expired=some q') :
    q'=q.move thread .idle ∧
      ∃ answer, q.guarded.attempt capacity expired operation=some answer ∧ answer.status=.ok := by
  rw [throwing,statements_eq] at h
  cases ha : q.guarded.attempt capacity expired operation with
  | none =>
    rw [ha] at h
    exact absurd h nofun
  | some answer =>
    rw [ha,ended,Bool.true_and] at h
    by_cases hs : answer.status=.ok
    · rw [if_pos (decide_eq_true hs)] at h
      exact ⟨(Option.some.inj h).symm,answer,rfl,hs⟩
    · rw [if_neg (by rwa [decide_eq_true_iff])] at h
      exact absurd h nofun

/-- A step in which a move throws: some thread in its section leaves. -/
theorem throws_cases {action : ThrowingAction α} (ht : action.throws=true)
    (h : step capacity q action=some q') :
    ∃ thread phase operation expired, q.threads[thread]?=some phase ∧
      Enters phase operation expired ∧ q'=q.move thread .idle ∧
      (∃ answer, q.guarded.attempt capacity expired operation=some answer ∧
        answer.status=.ok) ∧
      (Covered capacity q action ↔ ∀ condition, phase.wokenOn condition=true →
        Spare capacity q condition) := by
  cases action with
  | quiet action => exact absurd ht Bool.false_ne_true
  | callThrows thread operation =>
    rw [step] at h
    split at h
    · next hi =>
      obtain ⟨hq,ha⟩ := throwing_eq h
      exact ⟨thread,_,operation,false,hi,.inl ⟨rfl,rfl⟩,hq,ha,iff_of_true trivial nofun⟩
    · exact absurd h nofun
  | resumeThrows thread =>
    rw [step] at h
    split at h
    · next operation expired hi =>
      obtain ⟨hq,ha⟩ := throwing_eq h
      refine ⟨thread,_,operation,expired,hi,.inr rfl,hq,ha,?_⟩
      have hw : wokenFrom q thread=operation.waitsOn := by rw [wokenFrom,hi]
      rw [Covered,hw]
      simp only [Phase.wokenOn,beq_iff_eq,Option.mem_def]
    · exact absurd h nofun

/-- Everybody parked has a notification of its own to come. -/
def Notified (q : Queue α) (condition : Condition) : Prop :=
  q.guarded.closed=false ∧
    tally (Phase.parkedOn condition) q.threads≤tally (Phase.willNotify condition) q.threads

/-- Somebody parked is sure to be woken while there is something to be had. -/
def Sure (capacity : ℕ) (q : Queue α) (condition : Condition) : Prop :=
  Awake capacity q condition ∨ Notified q condition

/-- A move that parks nobody without a notification. -/
theorem Notified.moved {thread : ℕ} {old new : Phase α} (h : Notified q condition)
    (ht : q.threads[thread]?=some old) (hq : q'.threads=q.threads.set thread new)
    (hc : q'.guarded.closed=q.guarded.closed)
    (hp : share (Phase.parkedOn condition) new+share (Phase.willNotify condition) old≤
      share (Phase.parkedOn condition) old+share (Phase.willNotify condition) new) :
    Notified q' condition := by
  have h1 := tally_set (Phase.parkedOn condition) new ht
  have h2 := tally_set (Phase.willNotify condition) new ht
  rw [Notified,hq,hc]
  exact ⟨h.1,by have := h.2; omega⟩

/-- Every step in which nothing throws keeps the waiters sure. -/
theorem Sure.effect (h : Sure capacity q condition) (hf : q.guarded.buffer.length≤capacity)
    (he : Effect capacity q q') : Sure capacity q' condition := by
  by_cases ha : Awake capacity q condition
  · exact .inl (ha.effect hf he)
  have hn := h.resolve_left ha
  have hnone : tally (Phase.willBroadcast condition) q.threads=0 :=
    Nat.eq_zero_of_not_pos (fun hb => ha (.inr (.inl hb)))
  cases he with
  | @waits thread phase operation expired ht he hw =>
    obtain ⟨other,hwait,ho,hz⟩ := attempt_waits hw
    by_cases hc : other=condition
    · refine .inl (.inr (.inr ⟨ho,?_⟩))
      rw [←hc]
      exact hz ▸ Nat.zero_le _
    · obtain ⟨_,_,hno,_⟩ := share_enters condition he
      have hs : share (Phase.parkedOn condition) (.parked operation)=0 := by
        rw [share_parked,if_neg (fun hs => hc (Option.some.inj (hwait.symm.trans hs)))]
      exact .inr (hn.moved ht rfl rfl (by omega))
  | @answers thread phase operation expired answer ht he ha =>
    obtain ⟨_,_,hno,_⟩ := share_enters condition he
    have hs : share (Phase.parkedOn condition) (afterAnswer operation answer.status)=0 := by
      rw [afterAnswer]
      split <;> rfl
    exact .inr (hn.moved ht rfl (attempt_trades hf ha).1 (by omega))
  | wakes ht => exact .inr (hn.moved ht rfl rfl (Nat.zero_le _))
  | expires ht => exact .inr (hn.moved ht rfl rfl (Nat.zero_le _))
  | @misses thread other ht hm =>
    have hne : other≠condition := by
      rintro rfl
      exact ha (.inl hm)
    refine .inr (hn.moved ht rfl rfl ?_)
    rw [share_notifying,same,if_neg hne]
    exact Nat.zero_le _
  | notifies ht hc hw =>
    obtain ⟨h1,_,h3,_⟩ := notified_tallies condition ht hc hw rfl
    refine .inr ⟨hn.1,?_⟩
    have hle := hn.2
    simp only [Queue.move]
    omega
  | repeats _ => exact .inr hn
  | @closes thread ht hc =>
    have hl : thread < q.threads.length := (List.getElem?_eq_some_iff.mp ht).1
    refine .inl (.inr (.inl (tally_pos (List.getElem?_set_self hl) ?_)))
    cases condition <;> rfl
  | @broadcasts thread other rest ht =>
    have hne : other≠condition := by
      rintro rfl
      refine ha (.inr (.inl (tally_pos ht ?_)))
      rw [Phase.willBroadcast,List.contains_cons,beq_self_eq_true,Bool.true_or]
    have h1 := tally_map_same q.threads _ (fun phase => (roused_elsewhere hne phase).1)
    have h3 := tally_map_same q.threads _ (fun phase => (roused_elsewhere hne phase).2.2.1)
    have hr : Notified {q with threads := q.threads.map (Phase.roused other)} condition := by
      rw [Notified,h1,h3]
      exact hn
    have hm : (q.threads.map (Phase.roused other))[thread]?=
        some (.broadcasting (other::rest)) := by
      rw [List.getElem?_map,ht]
      rfl
    refine .inr (hr.moved hm rfl rfl ?_)
    have hs : share (Phase.parkedOn condition)
        (if rest=[] then .idle else .broadcasting rest : Phase α)=0 := by
      split <;> rfl
    rw [hs]
    exact Nat.zero_le _

/-- A thread that throws leaves the waiters sure when it can be done without. -/
theorem Sure.thrown {thread : ℕ} {phase : Phase α} {expired : Bool}
    (h : Sure capacity q condition) (ht : q.threads[thread]?=some phase)
    (he : Enters phase operation expired)
    (hs : phase.wokenOn condition=true → Spare capacity q condition) :
    Sure capacity (q.move thread .idle) condition := by
  obtain ⟨hp,hb,hn,hw⟩ := share_enters condition he
  rcases hw with hw | ⟨hw,_⟩
  · rcases h with h | h
    · refine .inl (h.moved ht rfl rfl (Nat.zero_le _) (by omega) ?_)
      rw [hn,hw]
      exact Nat.le_add_right _ _
    · exact .inr (h.moved ht rfl rfl (by rw [hn]; exact Nat.zero_le _))
  · have hwoken : phase.wokenOn condition=true := by
      by_contra hf
      rw [share,if_neg hf] at hw
      exact Nat.zero_ne_one hw
    have h1 := tally_set (Phase.parkedOn condition) .idle ht
    have h2 := tally_set (Phase.willBroadcast condition) .idle ht
    have h3 := tally_set (Phase.willNotify condition) .idle ht
    have h4 := tally_set (Phase.wokenOn condition) .idle ht
    have k1 : share (Phase.parkedOn condition) (.idle : Phase α)=0 := rfl
    have k2 : share (Phase.willBroadcast condition) (.idle : Phase α)=0 := rfl
    have k3 : share (Phase.willNotify condition) (.idle : Phase α)=0 := rfl
    have k4 : share (Phase.wokenOn condition) (.idle : Phase α)=0 := rfl
    have hopen : tally (Phase.parkedOn condition) q.threads=0 ∨
        0 < tally (Phase.willBroadcast condition) q.threads ∨ q.guarded.closed=false :=
      h.elim (fun ha => ha.imp id (fun hr => hr.imp id (fun hc => hc.1)))
        (fun hnot => .inr (.inr hnot.1))
    rw [Sure,Awake,Notified]
    simp only [Queue.move]
    rcases hopen with hz | hz | ho
    · exact .inl (.inl (by omega))
    · exact .inl (.inr (.inl (by omega)))
    · rcases hs hwoken with hz | hz | hz | hz
      · exact .inl (.inl (by omega))
      · exact .inl (.inr (.inl (by omega)))
      · exact .inl (.inr (.inr ⟨ho,by omega⟩))
      · exact .inr ⟨ho,by omega⟩

/-- Where the waiters are sure, nobody is stranded. -/
theorem Sure.pending (h : Sure capacity q condition) (hw : Waited q condition)
    (hs : 0 < stock capacity q.guarded condition) : ∃ phase∈q.threads, Pending condition phase := by
  rcases h with h | h
  · exact h.pending hw hs
  · obtain ⟨phase,hm,hp⟩ := hw
    have hpos : 0 < tally (Phase.parkedOn condition) q.threads := by
      refine Nat.pos_of_ne_zero (fun hz => ?_)
      exact absurd (hp.symm.trans (tally_zero.mp hz phase hm)) (by decide)
    obtain ⟨other,ho,hn⟩ := exists_of_tally (Nat.lt_of_lt_of_le hpos h.2)
    exact ⟨other,ho,.inl hn⟩

/-- The order of the queue and the waiters in every guarded run. -/
theorem reaches_sure (h : ((throwingMachine α capacity).guarded (Covered capacity)).Reaches q) :
    Ordered capacity q ∧ ∀ condition, Sure capacity q condition := by
  refine h.invariant (P := fun q => Ordered capacity q ∧ ∀ condition, Sure capacity q condition)
    ?_ ?_
  · exact fun s ⟨_,hs⟩ => ⟨make_ordered hs,fun condition => .inl (make_awake hs condition)⟩
  · rintro q action q' ⟨ho,hs⟩ ⟨hc,hstep⟩
    cases ht : action.throws with
    | false =>
      cases action with
      | quiet action =>
        have he := step_effect hstep
        exact ⟨ho.effect he,fun condition => (hs condition).effect ho.1.fits he⟩
      | callThrows _ _ => exact absurd ht nofun
      | resumeThrows _ => exact absurd ht nofun
    | true =>
      obtain ⟨thread,phase,operation,expired,hp,he,rfl,_,hcov⟩ := throws_cases ht hstep
      exact ⟨ho,fun condition => (hs condition).thrown hp he (hcov.mp hc condition)⟩

/-- Where the waiters of both condition variables are sure, nobody is
stranded. -/
theorem noneStranded (h : ∀ condition, Sure capacity q condition) : NoneStranded capacity q := by
  refine ⟨fun hb hw => ?_,fun hb hw => ?_⟩
  · exact (h .notEmpty).pending hw (List.length_pos_iff.mpr hb)
  · exact (h .notFull).pending hw (Nat.sub_pos_of_lt hb)

/-- Somebody is parked on an open queue with no broadcast to come, too few
notifications for all the parked and too few wakeups for the stock. -/
structure Exposed (capacity : ℕ) (q : Queue α) (condition : Condition) : Prop where
  opened : q.guarded.closed=false
  fits : q.guarded.buffer.length≤capacity
  quiet : tally (Phase.willBroadcast condition) q.threads=0
  parked : tally (Phase.willNotify condition) q.threads <
    tally (Phase.parkedOn condition) q.threads
  stocked : tally (Phase.willNotify condition) q.threads+
    tally (Phase.wokenOn condition) q.threads < stock capacity q.guarded condition

/-- Somebody is parked beside stock and no wakeup is to come. -/
def Stranded (capacity : ℕ) (q : Queue α) (condition : Condition) : Prop :=
  Waited q condition ∧ 0 < stock capacity q.guarded condition ∧
    ∀ phase∈q.threads, ¬Pending condition phase

theorem Stranded.not_none (h : Stranded capacity q condition) : ¬NoneStranded capacity q := by
  obtain ⟨hw,hs,hp⟩ := h
  intro hn
  cases condition with
  | notEmpty =>
    obtain ⟨phase,hm,hpend⟩ := hn.1 (List.length_pos_iff.mp hs) hw
    exact hp phase hm hpend
  | notFull =>
    obtain ⟨phase,hm,hpend⟩ := hn.2 (Nat.lt_of_sub_pos hs) hw
    exact hp phase hm hpend

/-- A thread that can be spared for nothing leaves the others exposed. -/
theorem Sure.exposed {thread : ℕ} {phase : Phase α} {expired : Bool}
    (h : Sure capacity q condition) (hf : q.guarded.buffer.length≤capacity)
    (ht : q.threads[thread]?=some phase) (he : Enters phase operation expired)
    (hw : phase.wokenOn condition=true) (hs : ¬Spare capacity q condition) :
    Exposed capacity (q.move thread .idle) condition := by
  obtain ⟨hp,hb,hn,_⟩ := share_enters condition he
  have h1 := tally_set (Phase.parkedOn condition) .idle ht
  have h2 := tally_set (Phase.willBroadcast condition) .idle ht
  have h3 := tally_set (Phase.willNotify condition) .idle ht
  have h4 := tally_set (Phase.wokenOn condition) .idle ht
  have k1 : share (Phase.parkedOn condition) (.idle : Phase α)=0 := rfl
  have k2 : share (Phase.willBroadcast condition) (.idle : Phase α)=0 := rfl
  have k3 : share (Phase.willNotify condition) (.idle : Phase α)=0 := rfl
  have k4 : share (Phase.wokenOn condition) (.idle : Phase α)=0 := rfl
  have hone : share (Phase.wokenOn condition) phase=1 := share_pos hw
  rw [Spare] at hs
  have ho : q.guarded.closed=false := by
    rcases h with (ha | ha | ha) | ha
    · exact absurd (.inl ha) hs
    · exact absurd (.inr (.inl ha)) hs
    · exact ha.1
    · exact ha.1
  refine ⟨ho,hf,?_,?_,?_⟩ <;> simp only [Queue.move] <;> omega

theorem parkedOn_eq {phase : Phase α} (h : phase.parkedOn condition=true) :
    ∃ operation, phase=.parked operation ∧ operation.waitsOn=some condition := by
  cases phase with
  | parked operation => exact ⟨operation,rfl,beq_iff_eq.mp h⟩
  | _ => exact absurd h Bool.false_ne_true

theorem wokenOn_eq {phase : Phase α} (h : phase.wokenOn condition=true) :
    ∃ operation expired, phase=.woken operation expired ∧ operation.waitsOn=some condition := by
  cases phase with
  | woken operation expired => exact ⟨operation,expired,rfl,beq_iff_eq.mp h⟩
  | _ => exact absurd h Bool.false_ne_true

theorem willNotify_eq {phase : Phase α} (h : phase.willNotify condition=true) :
    phase=.notifying condition := by
  cases phase with
  | notifying other => exact congrArg Phase.notifying (beq_iff_eq.mp h)
  | _ => exact absurd h Bool.false_ne_true

/-- A notification to come wakes one of the parked. -/
theorem Exposed.notify (h : Exposed capacity q condition)
    (hn : 0 < tally (Phase.willNotify condition) q.threads) :
    ∃ action q', q.step capacity action=some q' ∧ Exposed capacity q' condition ∧
      tally (Phase.willNotify condition) q'.threads+1=
        tally (Phase.willNotify condition) q.threads ∧
      tally (Phase.wokenOn condition) q'.threads=
        tally (Phase.wokenOn condition) q.threads+1 := by
  obtain ⟨phase,hm,hp⟩ := exists_of_tally hn
  obtain rfl := willNotify_eq hp
  obtain ⟨thread,ht⟩ := List.getElem?_of_mem hm
  obtain ⟨other,ho,hpark⟩ := exists_of_tally (Nat.lt_of_le_of_lt (Nat.zero_le _) h.parked)
  obtain ⟨operation,rfl,hw⟩ := parkedOn_eq hpark
  obtain ⟨chosen,hc⟩ := List.getElem?_of_mem ho
  have hs : q.step capacity (.notify thread (some chosen))=
      some ((q.move thread .idle).move chosen (.woken operation false)) := by
    rw [Queue.step,ht,hc]
    exact if_pos hw
  obtain ⟨h1,h2,h3,h4⟩ := notified_tallies condition ht hc hw rfl
  rw [same,if_pos rfl] at h1 h3 h4
  have hp := h.parked
  have hst := h.stocked
  have hq := h.quiet
  refine ⟨_,_,hs,⟨h.opened,h.fits,?_,?_,?_⟩,?_,?_⟩ <;> simp only [Queue.move] <;> omega

/-- What a successful operation trades keeps the buffer within its capacity. -/
theorem traded_fits {answer : Answer α} (hf : g.buffer.length≤capacity)
    (ht : ∀ condition, stock capacity answer.after condition+same (uses operation) condition=
      stock capacity g condition+same operation.notifies condition) :
    answer.after.buffer.length≤capacity := by
  have h1 := ht .notEmpty
  have h2 := ht .notFull
  cases operation <;>
    simp only [stock,same,uses,Operation.notifies,reduceCtorEq,if_true,if_false] at h1 h2 <;>
    omega

/-- A woken thread takes what it was woken for. -/
theorem Exposed.resume (h : Exposed capacity q condition)
    (hn : 0 < tally (Phase.wokenOn condition) q.threads) :
    ∃ action q', q.step capacity action=some q' ∧ Exposed capacity q' condition ∧
      tally (Phase.willNotify condition) q'.threads=
        tally (Phase.willNotify condition) q.threads ∧
      tally (Phase.wokenOn condition) q'.threads+1=
        tally (Phase.wokenOn condition) q.threads := by
  obtain ⟨phase,hm,hp⟩ := exists_of_tally hn
  obtain ⟨operation,expired,rfl,hw⟩ := wokenOn_eq hp
  obtain ⟨thread,ht⟩ := List.getElem?_of_mem hm
  have hst := h.stocked
  have hstep : q.step capacity (.resume thread)=
      some (q.attempt capacity thread operation expired) := by
    rw [Queue.step,ht]
  cases ha : q.guarded.attempt capacity expired operation with
  | none =>
    obtain ⟨other,ho,_,hz⟩ := attempt_waits ha
    obtain rfl := Option.some.inj (hw.symm.trans ho)
    omega
  | some answer =>
    obtain ⟨hc,⟨hok,htrade⟩ | ⟨_,_,hz⟩⟩ := attempt_trades h.fits ha
    · have huse := uses_of_waitsOn hw
      have hne : operation.notifies≠condition := by
        rw [←huse]
        cases operation <;> (intro hs; cases hs)
      have hstock := htrade condition
      rw [same,same,if_pos huse,if_neg hne] at hstock
      have hq : (q.attempt capacity thread operation expired)=
          {q.move thread (.notifying operation.notifies) with
            guarded := answer.after
            history := q.history++[.answered thread operation answer.status answer.item]} := by
        unfold Queue.attempt
        rw [ha]
        simp only [afterAnswer,if_pos hok]
      have hfits := traded_fits h.fits htrade
      have h1 := tally_set (Phase.parkedOn condition) (.notifying operation.notifies) ht
      have h2 := tally_set (Phase.willBroadcast condition) (.notifying operation.notifies) ht
      have h3 := tally_set (Phase.willNotify condition) (.notifying operation.notifies) ht
      have h4 := tally_set (Phase.wokenOn condition) (.notifying operation.notifies) ht
      simp only [share,Phase.parkedOn,Phase.willBroadcast,Phase.willNotify,Phase.wokenOn,
        Bool.false_eq_true,if_false,hw,beq_iff_eq,if_true,if_neg hne,Nat.add_zero] at h1 h2 h3 h4
      rw [hq] at hstep
      have hp := h.parked
      have hquiet := h.quiet
      refine ⟨_,_,hstep,⟨hc.trans h.opened,hfits,?_,?_,?_⟩,?_,?_⟩ <;>
        simp only [Queue.move] <;> omega
    · have := hz condition hw h.opened
      omega

/-- From an exposed queue the wakeups to come run out before the stock. -/
theorem Exposed.strands (h : Exposed capacity q condition) :
    ∃ actions q', Machine.replay (Queue.step capacity) (fun _ _ => true) actions q=some q' ∧
      Stranded capacity q' condition := by
  generalize hn : 2*tally (Phase.willNotify condition) q.threads+
    tally (Phase.wokenOn condition) q.threads=n
  induction n using Nat.strong_induction_on generalizing q with
  | _ n ih =>
    have hgo : ∀ {action : Action α} {q' : Queue α}, q.step capacity action=some q' →
        Exposed capacity q' condition →
        2*tally (Phase.willNotify condition) q'.threads+
          tally (Phase.wokenOn condition) q'.threads < n →
        ∃ actions left, Machine.replay (Queue.step capacity) (fun _ _ => true) actions q=
          some left ∧ Stranded capacity left condition := by
      intro action q' hs he hlt
      obtain ⟨actions,left,hr,hst⟩ := ih _ hlt he rfl
      refine ⟨action::actions,left,?_,hst⟩
      rw [Machine.replay,if_pos rfl,hs]
      exact hr
    by_cases hnot : 0 < tally (Phase.willNotify condition) q.threads
    · obtain ⟨action,q',hs,he,h3,h4⟩ := h.notify hnot
      exact hgo hs he (by omega)
    by_cases hwok : 0 < tally (Phase.wokenOn condition) q.threads
    · obtain ⟨action,q',hs,he,h3,h4⟩ := h.resume hwok
      exact hgo hs he (by omega)
    have hp := h.parked
    have hst := h.stocked
    refine ⟨[],q,rfl,exists_of_tally (Nat.lt_of_le_of_lt (Nat.zero_le _) hp),by omega,?_⟩
    rintro phase hm (hpend | hpend | hpend)
    · exact absurd (hpend.symm.trans (tally_zero.mp (by omega) phase hm)) (by decide)
    · exact absurd (hpend.symm.trans (tally_zero.mp h.quiet phase hm)) (by decide)
    · exact absurd (hpend.symm.trans (tally_zero.mp (by omega) phase hm)) (by decide)

/-- Two consumers wait, an item is pushed and one of them is woken. -/
def chosenConsumer : List (ThrowingAction ℕ) :=
  [.quiet (.call 0 .pop),.quiet (.call 1 .pop),.quiet (.call 2 (.push 7)),
    .quiet (.notify 2 (some 0))]

/-- The queue then: the first consumer is woken, the second one parked. -/
def chosenQueue (second : Phase ℕ) : Queue ℕ :=
  ⟨⟨[7],false⟩,[.woken .pop false,second,.idle],[.answered 2 (.push 7) .ok none]⟩

/-- The queue when the first consumer's move has thrown. -/
def thrownQueue (second : Phase ℕ) : Queue ℕ :=
  ⟨⟨[7],false⟩,[.idle,second,.idle],[.answered 2 (.push 7) .ok none]⟩

theorem chosen_throws (second : Phase ℕ) :
    step 1 (chosenQueue second) (.resumeThrows 0)=some (thrownQueue second) := rfl

/-- The run in which the second consumer wakes for no reason. -/
theorem spurious_reached : ((throwingMachine ℕ 1).guarded (Covered 1)).Reaches
    (chosenQueue (.woken .pop false)) := by
  rw [←Machine.guarded_decide]
  exact Machine.Reaches.replay (m := throwingMachine ℕ 1) (fun _ _ _ h => h)
    (chosenConsumer++[.quiet (.wake 1)]) (.start ⟨3,rfl⟩) rfl

end CudaForge.QueueExceptions
