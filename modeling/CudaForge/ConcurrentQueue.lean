import CudaForge.ThreadPools
import CudaForge.TransitionRuns

/-!
# The bounded blocking queue

`ConcurrentQueue`: a mutex guards the buffer and the closed flag, and two
condition variables park the threads that cannot go on. A critical section is
one step, from taking the mutex to releasing it; a wait releases the mutex
until the thread is woken, and a notification is issued after the section, in
a step of its own. Any number of threads call any operations in any order.
-/

namespace CudaForge.ConcurrentQueue

open ThreadPools TransitionRuns

variable {α : Type}

/-- Outcome of a queue operation. -/
inductive QueueStatus where
  | ok
  | timeout
  /-- The queue is shut down and, for a pop, drained. -/
  | closed
  | full
  | empty
  deriving DecidableEq

/-- The operations that report a status. -/
inductive Operation (α : Type) where
  | push (value : α)
  | tryPush (value : α)
  | pop
  | popFor
  | tryPop

/-- The two condition variables. -/
inductive Condition where
  | notEmpty
  | notFull
  deriving DecidableEq

/-- The fields the mutex guards. -/
structure Guarded (α : Type) where
  /-- The buffered items, oldest first. -/
  buffer : List α := []
  /-- `shutdown` was called. -/
  closed : Bool := false

/-- What a finished operation reports. -/
structure Answer (α : Type) where
  /-- The status it returns. -/
  status : QueueStatus
  /-- What it moved out of the buffer. -/
  item : Option α
  /-- The guarded fields when it releases the mutex. -/
  after : Guarded α

/-- The predicate `not_full_` waits for. -/
def Guarded.mayPush (capacity : ℕ) (g : Guarded α) : Bool :=
  g.closed||decide (g.buffer.length < capacity)

/-- The predicate `not_empty_` waits for. -/
def Guarded.mayPop (g : Guarded α) : Bool := g.closed||!g.buffer.isEmpty

/-- A refusal leaves the guarded fields alone. -/
def Guarded.refuse (g : Guarded α) (status : QueueStatus) : Answer α := ⟨status,none,g⟩

/-- The value goes to the back of the buffer. -/
def Guarded.accept (g : Guarded α) (value : α) : Answer α :=
  ⟨.ok,none,{g with buffer := g.buffer++[value]}⟩

/-- The front of the buffer is moved out; an empty buffer gives `status`. -/
def Guarded.take (g : Guarded α) (status : QueueStatus) : Answer α :=
  match g.buffer with
  | [] => g.refuse status
  | item::rest => ⟨.ok,some item,{g with buffer := rest}⟩

/-- `push`; nothing when it has to wait. -/
def Guarded.push (capacity : ℕ) (g : Guarded α) (value : α) : Option (Answer α) :=
  if g.mayPush capacity then some (if g.closed then g.refuse .closed else g.accept value)
  else none

/-- `try_push`. -/
def Guarded.tryPush (capacity : ℕ) (g : Guarded α) (value : α) : Answer α :=
  if g.closed then g.refuse .closed
  else if capacity ≤ g.buffer.length then g.refuse .full
  else g.accept value

/-- `pop`; nothing when it has to wait. -/
def Guarded.pop (g : Guarded α) : Option (Answer α) :=
  if g.mayPop then some (g.take .closed) else none

/-- `pop_for`; nothing when it has to wait, which it no longer does once its
time is up. -/
def Guarded.popFor (g : Guarded α) (expired : Bool) : Option (Answer α) :=
  if g.mayPop then some (g.take .closed)
  else if expired then some (g.refuse .timeout)
  else none

/-- `try_pop`. -/
def Guarded.tryPop (g : Guarded α) : Answer α :=
  g.take (if g.closed then .closed else .empty)

/-- The critical section of an operation, from the point where its predicate
is looked at; nothing when it has to wait. -/
def Guarded.attempt (capacity : ℕ) (g : Guarded α) (expired : Bool) :
    Operation α → Option (Answer α)
  | .push value => g.push capacity value
  | .tryPush value => some (g.tryPush capacity value)
  | .pop => g.pop
  | .popFor => g.popFor expired
  | .tryPop => some g.tryPop

/-- The condition variable an operation waits on. -/
def Operation.waitsOn : Operation α → Option Condition
  | .push _ => some .notFull
  | .pop => some .notEmpty
  | .popFor => some .notEmpty
  | .tryPush _ => none
  | .tryPop => none

/-- The condition variable a successful operation notifies. -/
def Operation.notifies : Operation α → Condition
  | .push _ => .notEmpty
  | .tryPush _ => .notEmpty
  | .pop => .notFull
  | .popFor => .notFull
  | .tryPop => .notFull

/-- What a thread is doing. -/
inductive Phase (α : Type) where
  /-- It is not inside the queue. -/
  | idle
  /-- It waits in an operation. -/
  | parked (operation : Operation α)
  /-- It was woken and has not taken the mutex again; `expired` when the wait
  will report that its time is up. -/
  | woken (operation : Operation α) (expired : Bool)
  /-- Its section is over and its `notify_one` is to come. -/
  | notifying (condition : Condition)
  /-- It closed the queue and these `notify_all` calls are to come. -/
  | broadcasting (conditions : List Condition)

/-- What happened, at the moment it happened. -/
inductive Event (α : Type) where
  /-- An operation was decided. -/
  | answered (thread : ℕ) (operation : Operation α) (status : QueueStatus) (item : Option α)
  /-- A shutdown took effect. -/
  | shut (thread : ℕ)

/-- The queue, its threads, and what happened so far. -/
structure Queue (α : Type) where
  /-- The fields the mutex guards. -/
  guarded : Guarded α := {}
  /-- What each thread is doing. -/
  threads : List (Phase α)
  /-- What happened so far. -/
  history : List (Event α) := []

/-- A step of one thread, or of its environment. -/
inductive Action (α : Type) where
  /-- It calls an operation and takes the mutex. -/
  | call (thread : ℕ) (operation : Operation α)
  /-- Woken, it takes the mutex again. -/
  | resume (thread : ℕ)
  /-- Its wait returns with no notification. -/
  | wake (thread : ℕ)
  /-- The time of its timed wait is up. -/
  | expire (thread : ℕ)
  /-- It issues its `notify_one`, which picks a parked thread if there is one. -/
  | notify (thread : ℕ) (chosen : Option ℕ)
  /-- It calls `shutdown` and takes the mutex. -/
  | shutdown (thread : ℕ)
  /-- It issues its next `notify_all`. -/
  | broadcast (thread : ℕ)

/-- It waits on this condition variable. -/
def Phase.parkedOn (condition : Condition) : Phase α → Bool
  | .parked operation => operation.waitsOn==some condition
  | _ => false

/-- It was woken from a wait on this condition variable. -/
def Phase.wokenOn (condition : Condition) : Phase α → Bool
  | .woken operation _ => operation.waitsOn==some condition
  | _ => false

/-- Its `notify_one` on this condition variable is to come. -/
def Phase.willNotify (condition : Condition) : Phase α → Bool
  | .notifying other => other==condition
  | _ => false

/-- Its `notify_all` on this condition variable is to come. -/
def Phase.willBroadcast (condition : Condition) : Phase α → Bool
  | .broadcasting conditions => conditions.contains condition
  | _ => false

/-- A `notify_all` wakes whoever waits on its condition variable. -/
def Phase.roused (condition : Condition) : Phase α → Phase α
  | .parked operation =>
    if operation.waitsOn==some condition then .woken operation false else .parked operation
  | phase => phase

/-- A thread goes on with the rest of its operation. -/
def Queue.move (q : Queue α) (thread : ℕ) (phase : Phase α) : Queue α :=
  {q with threads := q.threads.set thread phase}

/-- A successful operation goes on to its notification. -/
def afterAnswer (operation : Operation α) (status : QueueStatus) : Phase α :=
  if status=.ok then .notifying operation.notifies else .idle

/-- A thread holds the mutex and looks at its operation's predicate. -/
def Queue.attempt (capacity : ℕ) (q : Queue α) (thread : ℕ) (operation : Operation α)
    (expired : Bool) : Queue α :=
  match q.guarded.attempt capacity expired operation with
  | none => q.move thread (.parked operation)
  | some answer =>
    {q.move thread (afterAnswer operation answer.status) with
      guarded := answer.after
      history := q.history++[.answered thread operation answer.status answer.item]}

/-- What a step does, if it can be taken now. -/
def Queue.step (capacity : ℕ) (q : Queue α) : Action α → Option (Queue α)
  | .call thread operation =>
    match q.threads[thread]? with
    | some .idle => some (q.attempt capacity thread operation false)
    | _ => none
  | .resume thread =>
    match q.threads[thread]? with
    | some (.woken operation expired) => some (q.attempt capacity thread operation expired)
    | _ => none
  | .wake thread =>
    match q.threads[thread]? with
    | some (.parked operation) => some (q.move thread (.woken operation false))
    | _ => none
  | .expire thread =>
    match q.threads[thread]? with
    | some (.parked .popFor) => some (q.move thread (.woken .popFor true))
    | some (.woken .popFor false) => some (q.move thread (.woken .popFor true))
    | _ => none
  | .notify thread none =>
    match q.threads[thread]? with
    | some (.notifying condition) =>
      if q.threads.any (Phase.parkedOn condition) then none else some (q.move thread .idle)
    | _ => none
  | .notify thread (some chosen) =>
    match q.threads[thread]?,q.threads[chosen]? with
    | some (.notifying condition),some (.parked operation) =>
      if operation.waitsOn=some condition then
        some ((q.move thread .idle).move chosen (.woken operation false))
      else none
    | _,_ => none
  | .shutdown thread =>
    match q.threads[thread]? with
    | some .idle =>
      if q.guarded.closed then some q
      else some {q.move thread (.broadcasting [.notEmpty,.notFull]) with
        guarded := {q.guarded with closed := true}
        history := q.history++[.shut thread]}
    | _ => none
  | .broadcast thread =>
    match q.threads[thread]? with
    | some (.broadcasting (condition::rest)) =>
      some ({q with threads := q.threads.map (Phase.roused condition)}.move thread
        (if rest=[] then .idle else .broadcasting rest))
    | _ => none

/-- The constructor refuses a capacity of zero; nobody is inside the new
queue. -/
def make (capacity threads : ℕ) : Option (Queue α) :=
  if capacity=0 then none else some {threads := List.replicate threads .idle}

/-- The runs of a new queue of this capacity with any number of threads. -/
def machine (α : Type) (capacity : ℕ) : Machine (Queue α) (Action α) where
  starts q := ∃ threads, make capacity threads=some q
  steps q action q' := q.step capacity action=some q'

variable {capacity : ℕ} {g : Guarded α}

theorem take_nil {status : QueueStatus} (h : g.buffer=[]) : g.take status=g.refuse status := by
  rw [Guarded.take,h]

theorem take_cons {status : QueueStatus} {item : α} {rest : List α} (h : g.buffer=item::rest) :
    g.take status=⟨.ok,some item,{g with buffer := rest}⟩ := by
  rw [Guarded.take,h]

/-- What may be popped: closed, or not empty. -/
theorem mayPop_iff : g.mayPop=true ↔ g.closed=true ∨ g.buffer≠[] := by
  rw [Guarded.mayPop,Bool.or_eq_true,Bool.not_eq_true',List.isEmpty_eq_false_iff]

/-- What may be pushed: closed, or not full. -/
theorem mayPush_iff : g.mayPush capacity=true ↔ g.closed=true ∨ g.buffer.length < capacity := by
  rw [Guarded.mayPush,Bool.or_eq_true,decide_eq_true_eq]

/-- A pop that does not wait takes the front, or finds a closed queue drained. -/
theorem pop_eq {answer : Answer α} (h : g.pop=some answer) :
    answer=g.take .closed ∧ (g.buffer=[] → g.closed=true) := by
  obtain ⟨hm,ha⟩ := Option.ite_none_right_eq_some.mp h
  exact ⟨(Option.some.inj ha).symm,fun hb => (mayPop_iff.mp hm).resolve_right (fun hn => hn hb)⟩

/-- A timed pop that does not wait does the same, or its time is up while the
queue is open and empty. -/
theorem popFor_eq {expired : Bool} {answer : Answer α} (h : g.popFor expired=some answer) :
    answer=g.take .closed ∧ (g.buffer=[] → g.closed=true) ∨
      answer=g.refuse .timeout ∧ g.buffer=[] ∧ g.closed=false := by
  rw [Guarded.popFor] at h
  split at h
  · next hm =>
    refine Or.inl ⟨(Option.some.inj h).symm,fun hb => ?_⟩
    exact (mayPop_iff.mp hm).resolve_right (fun hn => hn hb)
  · next hm =>
    obtain ⟨_,ha⟩ := Option.ite_none_right_eq_some.mp h
    have hn := not_or.mp (fun ho => hm (mayPop_iff.mpr ho))
    exact Or.inr ⟨(Option.some.inj ha).symm,not_not.mp hn.2,Bool.eq_false_iff.mpr hn.1⟩

/-- A push that does not wait is refused by a closed queue, or accepted. -/
theorem push_eq {value : α} {answer : Answer α} (h : g.push capacity value=some answer) :
    g.closed=true ∧ answer=g.refuse .closed ∨
      g.closed=false ∧ g.buffer.length < capacity ∧ answer=g.accept value := by
  obtain ⟨hm,ha⟩ := Option.ite_none_right_eq_some.mp h
  cases hc : g.closed with
  | true =>
    rw [if_pos hc] at ha
    exact Or.inl ⟨rfl,(Option.some.inj ha).symm⟩
  | false =>
    rw [if_neg (Bool.eq_false_iff.mp hc)] at ha
    have hl := (mayPush_iff.mp hm).resolve_left (Bool.eq_false_iff.mp hc)
    exact Or.inr ⟨rfl,hl,(Option.some.inj ha).symm⟩

/-- `try_push` is refused by a closed or full queue, or accepted. -/
theorem tryPush_eq (capacity : ℕ) (g : Guarded α) (value : α) :
    g.closed=true ∧ g.tryPush capacity value=g.refuse .closed ∨
      g.closed=false ∧ capacity ≤ g.buffer.length ∧ g.tryPush capacity value=g.refuse .full ∨
      g.closed=false ∧ g.buffer.length < capacity ∧ g.tryPush capacity value=g.accept value := by
  rw [Guarded.tryPush]
  cases g.closed with
  | true => exact Or.inl ⟨rfl,if_pos rfl⟩
  | false =>
    rw [if_neg Bool.false_ne_true]
    refine Or.inr ?_
    by_cases hl : capacity ≤ g.buffer.length
    · exact Or.inl ⟨rfl,hl,if_pos hl⟩
    · exact Or.inr ⟨rfl,Nat.lt_of_not_le hl,if_neg hl⟩

/-- A thread in this phase takes the mutex for this operation. -/
def Enters (phase : Phase α) (operation : Operation α) (expired : Bool) : Prop :=
  phase=.idle ∧ expired=false ∨ phase=.woken operation expired

/-- What a step can do. -/
inductive Effect (capacity : ℕ) (q : Queue α) : Queue α → Prop
  /-- A predicate fails, so the thread waits. -/
  | waits {thread : ℕ} {phase : Phase α} {operation : Operation α} {expired : Bool}
      (ht : q.threads[thread]?=some phase) (he : Enters phase operation expired)
      (hn : q.guarded.attempt capacity expired operation=none) :
      Effect capacity q (q.move thread (.parked operation))
  /-- An operation is decided. -/
  | answers {thread : ℕ} {phase : Phase α} {operation : Operation α} {expired : Bool}
      {answer : Answer α} (ht : q.threads[thread]?=some phase)
      (he : Enters phase operation expired)
      (ha : q.guarded.attempt capacity expired operation=some answer) :
      Effect capacity q {q.move thread (afterAnswer operation answer.status) with
        guarded := answer.after
        history := q.history++[.answered thread operation answer.status answer.item]}
  /-- A wait ends without a notification. -/
  | wakes {thread : ℕ} {operation : Operation α} {expired : Bool}
      (ht : q.threads[thread]?=some (.parked operation)) :
      Effect capacity q (q.move thread (.woken operation expired))
  /-- The time of a woken thread is up before it has the mutex. -/
  | expires {thread : ℕ} {operation : Operation α}
      (ht : q.threads[thread]?=some (.woken operation false)) :
      Effect capacity q (q.move thread (.woken operation true))
  /-- A notification finds nobody. -/
  | misses {thread : ℕ} {condition : Condition}
      (ht : q.threads[thread]?=some (.notifying condition))
      (hn : tally (Phase.parkedOn condition) q.threads=0) :
      Effect capacity q (q.move thread .idle)
  /-- A notification wakes a thread. -/
  | notifies {thread chosen : ℕ} {condition : Condition} {operation : Operation α}
      (ht : q.threads[thread]?=some (.notifying condition))
      (hc : q.threads[chosen]?=some (.parked operation))
      (hw : operation.waitsOn=some condition) :
      Effect capacity q ((q.move thread .idle).move chosen (.woken operation false))
  /-- A later shutdown returns at once. -/
  | repeats : q.guarded.closed=true → Effect capacity q q
  /-- The first shutdown closes the queue. -/
  | closes {thread : ℕ} (ht : q.threads[thread]?=some .idle) (hc : q.guarded.closed=false) :
      Effect capacity q {q.move thread (.broadcasting [.notEmpty,.notFull]) with
        guarded := {q.guarded with closed := true}
        history := q.history++[.shut thread]}
  /-- A broadcast wakes everybody on its condition variable. -/
  | broadcasts {thread : ℕ} {condition : Condition} {rest : List Condition}
      (ht : q.threads[thread]?=some (.broadcasting (condition::rest))) :
      Effect capacity q ({q with threads := q.threads.map (Phase.roused condition)}.move thread
        (if rest=[] then .idle else .broadcasting rest))

variable {q q' : Queue α}

/-- Holding the mutex, a thread waits or decides. -/
theorem attempt_effect {thread : ℕ} {phase : Phase α} {operation : Operation α} {expired : Bool}
    (ht : q.threads[thread]?=some phase) (he : Enters phase operation expired) :
    Effect capacity q (q.attempt capacity thread operation expired) := by
  rw [Queue.attempt]
  cases ha : q.guarded.attempt capacity expired operation with
  | none => exact .waits ht he ha
  | some answer => exact .answers ht he ha

/-- Every step has one of these effects. -/
theorem step_effect {action : Action α} (h : q.step capacity action=some q') :
    Effect capacity q q' := by
  cases action with
  | call thread operation =>
    simp only [Queue.step] at h
    split at h
    · next ht =>
      rw [←Option.some.inj h]
      exact attempt_effect ht (Or.inl ⟨rfl,rfl⟩)
    · cases h
  | resume thread =>
    simp only [Queue.step] at h
    split at h
    · next ht =>
      rw [←Option.some.inj h]
      exact attempt_effect ht (Or.inr rfl)
    · cases h
  | wake thread =>
    simp only [Queue.step] at h
    split at h
    · next ht =>
      rw [←Option.some.inj h]
      exact .wakes ht
    · cases h
  | expire thread =>
    simp only [Queue.step] at h
    split at h
    · next ht =>
      rw [←Option.some.inj h]
      exact .wakes ht
    · next ht =>
      rw [←Option.some.inj h]
      exact .expires ht
    · cases h
  | notify thread chosen =>
    cases chosen with
    | none =>
      simp only [Queue.step] at h
      split at h
      · next ht =>
        obtain ⟨hn,hq⟩ := Option.ite_none_left_eq_some.mp h
        rw [←Option.some.inj hq]
        refine .misses ht (tally_zero.mpr (fun phase hm => ?_))
        cases hp : Phase.parkedOn _ phase with
        | false => rfl
        | true => exact absurd (List.any_eq_true.mpr ⟨phase,hm,hp⟩) hn
      · cases h
    | some chosen =>
      simp only [Queue.step] at h
      split at h
      · next ht hc =>
        obtain ⟨hw,hq⟩ := Option.ite_none_right_eq_some.mp h
        rw [←Option.some.inj hq]
        exact .notifies ht hc hw
      · cases h
  | shutdown thread =>
    simp only [Queue.step] at h
    split at h
    · next ht =>
      cases hc : q.guarded.closed with
      | true =>
        rw [if_pos hc] at h
        rw [←Option.some.inj h]
        exact .repeats hc
      | false =>
        rw [if_neg (Bool.eq_false_iff.mp hc)] at h
        rw [←Option.some.inj h]
        exact .closes ht hc
    · cases h
  | broadcast thread =>
    simp only [Queue.step] at h
    split at h
    · next ht =>
      rw [←Option.some.inj h]
      exact .broadcasts ht
    · cases h

/-- A new queue is open and empty, and nobody is inside. -/
theorem make_eq {threads : ℕ} (h : make capacity threads=some q) :
    0 < capacity ∧ q={threads := List.replicate threads .idle} := by
  obtain ⟨hc,hq⟩ := Option.ite_none_left_eq_some.mp h
  exact ⟨Nat.pos_of_ne_zero hc,(Option.some.inj hq).symm⟩

end CudaForge.ConcurrentQueue
