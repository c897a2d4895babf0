import CudaForge.ConcurrentQueue
import CudaForge.EventHistories

/-!
# The blocking queue is a bounded FIFO

The decided operations of a run, in the order in which they held the mutex,
are a history of one bounded first-in first-out queue: what was pushed is
what was popped followed by what is buffered, and every answer was the right
one at its moment.
-/

namespace CudaForge.QueueOrder

open ConcurrentQueue EventHistories TransitionRuns

variable {α : Type}

/-- The value a push carries. -/
def carried : Operation α → Option α
  | .push value => some value
  | .tryPush value => some value
  | _ => none

/-- What an event put into the queue. -/
def pushedBy : Event α → Option α
  | .answered _ operation .ok _ => carried operation
  | _ => none

/-- What an event took out of the queue. -/
def poppedBy : Event α → Option α
  | .answered _ _ .ok item => item
  | _ => none

/-- The event is a shutdown that took effect. -/
def shuts : Event α → Bool
  | .shut _ => true
  | .answered .. => false

/-- The successfully pushed items in push order. -/
def pushedItems (history : List (Event α)) : List α := history.filterMap pushedBy

/-- The successfully popped items in pop order. -/
def poppedItems (history : List (Event α)) : List α := history.filterMap poppedBy

/-- A shutdown took effect. -/
def shutIn (history : List (Event α)) : Bool := history.any shuts

/-- Every accepted item was popped. -/
def Drained (history : List (Event α)) : Prop := poppedItems history=pushedItems history

/-- The queue holds fewer items than it may. -/
def Roomy (capacity : ℕ) (history : List (Event α)) : Prop :=
  (pushedItems history).length < (poppedItems history).length+capacity

/-- The queue holds as many items as it may. -/
def Crammed (capacity : ℕ) (history : List (Event α)) : Prop :=
  (pushedItems history).length=(poppedItems history).length+capacity

/-- The value is the oldest one not popped yet. -/
def Oldest (history : List (Event α)) (value : α) : Prop :=
  poppedItems history++[value]<+:pushedItems history

/-- Which answers a bounded first-in first-out queue may give after a history. -/
def allowed (capacity : ℕ) (before : List (Event α)) : Event α → Prop
  | .shut _ => shutIn before=false
  | .answered _ (.push _) .ok none => shutIn before=false ∧ Roomy capacity before
  | .answered _ (.push _) .closed none => shutIn before=true
  | .answered _ (.tryPush _) .ok none => shutIn before=false ∧ Roomy capacity before
  | .answered _ (.tryPush _) .closed none => shutIn before=true
  | .answered _ (.tryPush _) .full none => shutIn before=false ∧ Crammed capacity before
  | .answered _ .pop .ok (some value) => Oldest before value
  | .answered _ .pop .closed none => shutIn before=true ∧ Drained before
  | .answered _ .popFor .ok (some value) => Oldest before value
  | .answered _ .popFor .closed none => shutIn before=true ∧ Drained before
  | .answered _ .popFor .timeout none => shutIn before=false ∧ Drained before
  | .answered _ .tryPop .ok (some value) => Oldest before value
  | .answered _ .tryPop .closed none => shutIn before=true ∧ Drained before
  | .answered _ .tryPop .empty none => shutIn before=false ∧ Drained before
  | _ => False

/-- The guarded fields say what the history says. -/
structure Kept (capacity : ℕ) (g : Guarded α) (history : List (Event α)) : Prop where
  /-- Nothing is lost, doubled or reordered. -/
  order : pushedItems history=poppedItems history++g.buffer
  /-- The buffer stays within its capacity. -/
  fits : g.buffer.length≤capacity
  /-- The flag is set by a shutdown and by nothing else. -/
  closed : g.closed=shutIn history

variable {capacity : ℕ} {g : Guarded α} {history : List (Event α)} {event : Event α}

theorem pushedItems_snoc :
    pushedItems (history++[event])=pushedItems history++(pushedBy event).toList := by
  rw [pushedItems,List.filterMap_append]
  cases h : pushedBy event with
  | none => rw [List.filterMap_cons_none h,List.filterMap_nil,Option.toList_none,pushedItems]
  | some value => rw [List.filterMap_cons_some h,List.filterMap_nil,Option.toList_some,pushedItems]

theorem poppedItems_snoc :
    poppedItems (history++[event])=poppedItems history++(poppedBy event).toList := by
  rw [poppedItems,List.filterMap_append]
  cases h : poppedBy event with
  | none => rw [List.filterMap_cons_none h,List.filterMap_nil,Option.toList_none,poppedItems]
  | some value => rw [List.filterMap_cons_some h,List.filterMap_nil,Option.toList_some,poppedItems]

theorem shutIn_snoc : shutIn (history++[event])=(shutIn history||shuts event) := by
  rw [shutIn,List.any_append,List.any_cons,List.any_nil,Bool.or_false,shutIn]

/-- An empty buffer means that everything was popped. -/
theorem Kept.drained (h : Kept capacity g history) (hb : g.buffer=[]) : Drained history := by
  rw [Drained,h.order,hb,List.append_nil]

/-- Room in the buffer is room in the history. -/
theorem Kept.roomy (h : Kept capacity g history) (hb : g.buffer.length < capacity) :
    Roomy capacity history := by
  rw [Roomy,h.order,List.length_append]
  omega

/-- A full buffer is a full history. -/
theorem Kept.crammed (h : Kept capacity g history) (hb : capacity ≤ g.buffer.length) :
    Crammed capacity history := by
  have hf := h.fits
  rw [Crammed,h.order,List.length_append]
  omega

/-- The front of the buffer is the oldest item. -/
theorem Kept.oldest {value : α} {rest : List α} (h : Kept capacity g history)
    (hb : g.buffer=value::rest) : Oldest history value := by
  rw [Oldest,h.order,hb]
  exact ⟨rest,by rw [List.append_assoc,List.singleton_append]⟩

/-- A refusal changes nothing. -/
theorem Kept.refuse {thread : ℕ} {operation : Operation α} {status : QueueStatus}
    (h : Kept capacity g history) (hs : status≠.ok) :
    Kept capacity g (history++[.answered thread operation status none]) := by
  have hp : pushedBy (.answered thread operation status none)=none := by
    cases status <;> first | rfl | exact absurd rfl hs
  have ho : poppedBy (.answered thread operation status none)=none := by
    cases status <;> rfl
  constructor
  · rw [pushedItems_snoc,poppedItems_snoc,hp,ho]
    simpa only [Option.toList_none,List.append_nil] using h.order
  · exact h.fits
  · rw [shutIn_snoc,h.closed]
    exact (Bool.or_false _).symm

/-- An accepted value is the newest item. -/
theorem Kept.accept {thread : ℕ} {operation : Operation α} {value : α}
    (h : Kept capacity g history) (ho : carried operation=some value)
    (hb : g.buffer.length < capacity) :
    Kept capacity {g with buffer := g.buffer++[value]}
      (history++[.answered thread operation .ok none]) := by
  constructor
  · rw [pushedItems_snoc,poppedItems_snoc,h.order]
    simp only [pushedBy,poppedBy,ho,Option.toList_none,Option.toList_some,
      List.append_nil,List.append_assoc]
  · rw [List.length_append,List.length_singleton]
    omega
  · rw [shutIn_snoc,h.closed]
    exact (Bool.or_false _).symm

/-- A taken value leaves the rest behind. -/
theorem Kept.taken {thread : ℕ} {operation : Operation α} {value : α} {rest : List α}
    (h : Kept capacity g history) (ho : carried operation=none) (hb : g.buffer=value::rest) :
    Kept capacity {g with buffer := rest}
      (history++[.answered thread operation .ok (some value)]) := by
  constructor
  · rw [pushedItems_snoc,poppedItems_snoc,h.order,hb]
    simp only [pushedBy,poppedBy,ho,Option.toList_none,Option.toList_some,
      List.append_nil,List.append_assoc,List.singleton_append]
  · have hf := h.fits
    rw [hb,List.length_cons] at hf
    exact Nat.le_of_succ_le hf
  · rw [shutIn_snoc,h.closed]
    exact (Bool.or_false _).symm

/-- A shutdown sets the flag. -/
theorem Kept.shut {thread : ℕ} (h : Kept capacity g history) :
    Kept capacity {g with closed := true} (history++[.shut thread]) := by
  constructor
  · rw [pushedItems_snoc,poppedItems_snoc,h.order]
    simp only [pushedBy,poppedBy,Option.toList_none,List.append_nil]
  · exact h.fits
  · rw [shutIn_snoc]
    exact (Bool.or_true _).symm

/-- What an answer must be: allowed, and kept by the fields it leaves. -/
def Right (capacity : ℕ) (history : List (Event α)) (thread : ℕ) (operation : Operation α)
    (answer : Answer α) : Prop :=
  allowed capacity history (.answered thread operation answer.status answer.item) ∧
    Kept capacity answer.after
      (history++[.answered thread operation answer.status answer.item])

/-- The pops answer alike when they do not wait: the oldest item, or that
there is none. -/
theorem take_right {thread : ℕ} {operation : Operation α} {status : QueueStatus}
    (h : Kept capacity g history) (ho : carried operation=none)
    (hok : ∀ value, Oldest history value →
      allowed capacity history (.answered thread operation .ok (some value)))
    (hs : status≠.ok)
    (hn : g.buffer=[] → allowed capacity history (.answered thread operation status none)) :
    Right capacity history thread operation (g.take status) := by
  cases hb : g.buffer with
  | nil =>
    rw [take_nil hb]
    exact ⟨hn hb,h.refuse hs⟩
  | cons value rest =>
    rw [take_cons hb]
    exact ⟨hok value (h.oldest hb),h.taken ho hb⟩

/-- Every decided operation was decided rightly. -/
theorem attempt_right {thread : ℕ} {operation : Operation α} {expired : Bool}
    {answer : Answer α} (h : Kept capacity g history)
    (ha : g.attempt capacity expired operation=some answer) :
    Right capacity history thread operation answer := by
  cases operation with
  | push value =>
    rcases push_eq ha with ⟨hc,rfl⟩ | ⟨hc,hl,rfl⟩
    · exact ⟨h.closed.symm.trans hc,h.refuse QueueStatus.noConfusion⟩
    · exact ⟨⟨h.closed.symm.trans hc,h.roomy hl⟩,h.accept rfl hl⟩
  | tryPush value =>
    obtain rfl := Option.some.inj ha
    rcases tryPush_eq capacity g value with ⟨hc,he⟩ | ⟨hc,hl,he⟩ | ⟨hc,hl,he⟩
    · rw [he]
      exact ⟨h.closed.symm.trans hc,h.refuse QueueStatus.noConfusion⟩
    · rw [he]
      exact ⟨⟨h.closed.symm.trans hc,h.crammed hl⟩,h.refuse QueueStatus.noConfusion⟩
    · rw [he]
      exact ⟨⟨h.closed.symm.trans hc,h.roomy hl⟩,h.accept rfl hl⟩
  | pop =>
    obtain ⟨rfl,hc⟩ := pop_eq ha
    exact take_right h rfl (fun _ ho => ho) QueueStatus.noConfusion
      (fun hb => ⟨h.closed.symm.trans (hc hb),h.drained hb⟩)
  | popFor =>
    rcases popFor_eq ha with ⟨rfl,hc⟩ | ⟨rfl,hb,hc⟩
    · exact take_right h rfl (fun _ ho => ho) QueueStatus.noConfusion
        (fun hb => ⟨h.closed.symm.trans (hc hb),h.drained hb⟩)
    · exact ⟨⟨h.closed.symm.trans hc,h.drained hb⟩,h.refuse QueueStatus.noConfusion⟩
  | tryPop =>
    obtain rfl := Option.some.inj ha
    cases hc : g.closed with
    | true =>
      rw [Guarded.tryPop,if_pos hc]
      exact take_right h rfl (fun _ ho => ho) QueueStatus.noConfusion
        (fun hb => ⟨h.closed.symm.trans hc,h.drained hb⟩)
    | false =>
      rw [Guarded.tryPop,if_neg (Bool.eq_false_iff.mp hc)]
      exact take_right h rfl (fun _ ho => ho) QueueStatus.noConfusion
        (fun hb => ⟨h.closed.symm.trans hc,h.drained hb⟩)

/-- What holds of the queue and its history. -/
def Ordered (capacity : ℕ) (q : Queue α) : Prop :=
  Kept capacity q.guarded q.history ∧ Lawful (allowed capacity) q.history

/-- A new queue has no history. -/
theorem make_ordered {q : Queue α} {threads : ℕ} (h : make capacity threads=some q) :
    Ordered capacity q := by
  rw [(make_eq h).2]
  exact ⟨⟨rfl,Nat.zero_le _,rfl⟩,lawful_nil⟩

/-- Every step keeps the order. -/
theorem Ordered.effect {q q' : Queue α} (h : Ordered capacity q) (he : Effect capacity q q') :
    Ordered capacity q' := by
  cases he with
  | waits => exact h
  | answers ht he ha =>
    obtain ⟨hl,hk⟩ := attempt_right h.1 ha
    exact ⟨hk,h.2.snoc hl⟩
  | wakes => exact h
  | expires => exact h
  | misses => exact h
  | notifies => exact h
  | repeats => exact h
  | closes ht hc => exact ⟨h.1.shut,h.2.snoc (h.1.closed.symm.trans hc)⟩
  | broadcasts => exact h

/-- In every run of any number of threads, what was pushed is what was popped
followed by what is buffered, the buffer is within its capacity, the flag says
whether a shutdown took effect, and every answer was right when it was given. -/
theorem reaches_fifo {q : Queue α} (h : (machine α capacity).Reaches q) :
    pushedItems q.history=poppedItems q.history++q.guarded.buffer ∧
      q.guarded.buffer.length≤capacity ∧ q.guarded.closed=shutIn q.history ∧
      Lawful (allowed capacity) q.history := by
  have ho : Ordered capacity q := h.invariant (fun _ ⟨_,hs⟩ => make_ordered hs)
    (fun _ _ _ hq hs => hq.effect (step_effect hs))
  exact ⟨ho.1.order,ho.1.fits,ho.1.closed,ho.2⟩

/-- A producer that waits for the only slot, and a shutdown with an item left. -/
def handover : List (Action ℕ) :=
  [.call 0 (.push 7),.notify 0 none,.call 1 (.push 8),.call 2 .pop,.notify 2 (some 1),
    .resume 1,.notify 1 none,.shutdown 2,.call 0 (.tryPush 9)]

theorem handover_fifo : ∃ q : Queue ℕ, (machine ℕ 1).Reaches q ∧ q.guarded.buffer=[8] ∧
    q.guarded.closed=true ∧ poppedItems q.history=[7] ∧ Lawful (allowed 1) q.history := by
  obtain ⟨q,hr,hb,hc,hp⟩ := Machine.Reaches.replayed (m := machine ℕ 1)
    (P := fun q => q.guarded.buffer=[8] ∧ q.guarded.closed=true ∧ poppedItems q.history=[7])
    (fun _ _ => true) (fun _ _ _ h => h) handover
    (.start (s := {threads := List.replicate 3 .idle}) ⟨3,rfl⟩) (by decide +kernel)
  exact ⟨q,hr.of_guarded,hb,hc,hp,(reaches_fifo hr.of_guarded).2.2.2⟩

end CudaForge.QueueOrder
