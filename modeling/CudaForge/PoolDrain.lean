import CudaForge.WorkerPool

/-!
# The pool runs accepted work exactly once

`PoolEffect` lists what a step of the pool can do. Its queue only ever takes
steps of the queue's machine, so it is a first-in first-out queue; on top of
that every popped task is in the hands of one worker until it has run, and a
worker leaves its loop only when it finds the closed queue drained.
-/

namespace CudaForge.PoolDrain

open ConcurrentQueue QueueOrder ThreadPools TransitionRuns WorkerPool

variable {capacity thread : ℕ} {p p' : ThreadPool} {q : Queue Task} {operation : Operation Task}

/-- The operation a thread of the queue is inside of. -/
def place : Phase Task → Option (Operation Task)
  | .parked operation => some operation
  | .woken operation _ => some operation
  | _ => none

/-- Where a thread stands that has called an operation. -/
def stageOf : Operation Task → Option Stage
  | .pop => some .fetching
  | .push task => some (.submitting task)
  | _ => none

/-- Whoever is inside an operation stands where it is called. -/
def Fits (p : ThreadPool) : Prop :=
  ∀ (thread : ℕ) (phase : Phase Task) (operation : Operation Task),
    p.tasks.threads[thread]?=some phase → place phase=some operation →
      ∃ stage, p.stages[thread]?=some stage ∧ stageOf operation=some stage

/-- The queue goes from one state to another without deciding an operation. -/
structure Silent (q q' : Queue Task) : Prop where
  guarded_eq : q'.guarded=q.guarded
  history_eq : q'.history=q.history
  places : ∀ (thread : ℕ) (phase : Phase Task) (operation : Operation Task),
    q'.threads[thread]?=some phase → place phase=some operation →
      ∃ before, q.threads[thread]?=some before ∧ place before=some operation

/-- Everything a step of the pool can do. -/
inductive PoolEffect (p : ThreadPool) : ThreadPool → Prop
  | silent {q : Queue Task} (hq : Silent p.tasks q) : PoolEffect p {p with tasks := q}
  | waits {thread : ℕ} {operation : Operation Task} {stage : Stage}
      (hs : p.stages[thread]?=some stage) (ho : stageOf operation=some stage) :
      PoolEffect p {p with tasks := p.tasks.move thread (.parked operation)}
  | took {thread : ℕ} {task : Task} {rest : List Task}
      (hs : p.stages[thread]?=some .fetching) (hb : p.tasks.guarded.buffer=task::rest) :
      PoolEffect p {p.goes thread (.fetched task) with
        tasks := {p.tasks.move thread (.notifying .notFull) with
          guarded := {p.tasks.guarded with buffer := rest}
          history := p.tasks.history++[.answered thread .pop .ok (some task)]}}
  | drained {thread : ℕ} (hs : p.stages[thread]?=some .fetching)
      (hb : p.tasks.guarded.buffer=[]) (hc : p.tasks.guarded.closed=true) :
      PoolEffect p {p.goes thread .exited with
        tasks := {p.tasks.move thread .idle with
          history := p.tasks.history++[.answered thread .pop .closed none]}}
  | pushed {thread : ℕ} {task : Task} (hs : p.stages[thread]?=some (.submitting task))
      (hc : p.tasks.guarded.closed=false) :
      PoolEffect p {p.goes thread (.accepted task) with
        tasks := {p.tasks.move thread (.notifying .notEmpty) with
          guarded := {p.tasks.guarded with buffer := p.tasks.guarded.buffer++[task]}
          history := p.tasks.history++[.answered thread (.push task) .ok none]}}
  | refused {thread : ℕ} {task : Task} (hs : p.stages[thread]?=some (.submitting task))
      (hc : p.tasks.guarded.closed=true) :
      PoolEffect p {p.goes thread .resting with
        replies := p.replies++[(task,task.refusal)]
        tasks := {p.tasks.move thread .idle with
          history := p.tasks.history++[.answered thread (.push task) .closed none]}}
  | submits {thread : ℕ} {submission : Submission} (hs : p.stages[thread]?=some .resting) :
      PoolEffect p {p.goes thread (.submitting ⟨p.issued,submission⟩) with issued := p.issued+1}
  | rejects {submission : Submission} :
      PoolEffect p {p with
        issued := p.issued+1
        replies := p.replies++[(⟨p.issued,submission⟩,(⟨p.issued,submission⟩ : Task).refusal)]}
  | activates {thread : ℕ} {task : Task} (hs : p.stages[thread]?=some (.fetched task)) :
      PoolEffect p {p.goes thread (.invoking task) with active := p.active+1}
  | runs {thread : ℕ} {task : Task} {failed : Bool}
      (hs : p.stages[thread]?=some (.invoking task)) :
      PoolEffect p {p.goes thread (.settling failed) with ran := p.ran++[task]}
  | counts {thread completed failed : ℕ} {failure : Bool}
      (hs : p.stages[thread]?=some (.settling failure))
      (hn : completed+failed=p.completed+p.failed+1) :
      PoolEffect p {p.goes thread .leaving with completed := completed, failed := failed}
  | deactivates {thread : ℕ} (hs : p.stages[thread]?=some .leaving) :
      PoolEffect p {p.goes thread .fetching with active := p.active-1}
  | acknowledges {thread : ℕ} {task : Task} (hs : p.stages[thread]?=some (.accepted task)) :
      PoolEffect p {p.goes thread .resting with
        submitted := p.submitted+1, replies := p.replies++[(task,.accepted)]}
  | stays : PoolEffect p p
  | stops {thread : ℕ} (hs : p.stages[thread]?=some .resting) :
      PoolEffect p {p.goes thread .closing with stopping := true}
  | closes {thread : ℕ} (hs : p.stages[thread]?=some .closing)
      (hc : p.tasks.guarded.closed=false) :
      PoolEffect p {p.goes thread (.joining 0) with
        tasks := {p.tasks.move thread (.broadcasting [.notEmpty,.notFull]) with
          guarded := {p.tasks.guarded with closed := true}
          history := p.tasks.history++[.shut thread]}}
  | closed {thread : ℕ} (hs : p.stages[thread]?=some .closing) :
      PoolEffect p (p.goes thread (.joining 0))
  | joins {thread worker : ℕ} (hs : p.stages[thread]?=some (.joining worker))
      (hw : p.stages[worker]?=some .exited) : PoolEffect p (p.goes thread (.joining (worker+1)))
  | joined {thread worker : ℕ} (hs : p.stages[thread]?=some (.joining worker))
      (hw : p.workerCount ≤ worker) :
      PoolEffect p {p.goes thread .resting with joined := true}

/-- A thread that holds the mutex for an operation it has called waits, or is
told how it was decided. -/
theorem attempt_effect {stage : Stage} {expired : Bool} (hs : p.stages[thread]?=some stage)
    (ho : stageOf operation=some stage) :
    PoolEffect p (p.advance (p.tasks.attempt capacity thread operation expired)) := by
  rw [Queue.attempt]
  cases ha : p.tasks.guarded.attempt capacity expired operation with
  | none =>
    have hd : p.advance (p.tasks.move thread (.parked operation))=
        {p with tasks := p.tasks.move thread (.parked operation)} := by
      simp only [ThreadPool.advance,Queue.move,List.drop_length,ThreadPool.heed]
    rw [hd]
    exact .waits hs ho
  | some answer =>
    cases operation with
    | pop =>
      obtain ⟨rfl,hc⟩ := pop_eq ha
      have hs : p.stages[thread]?=some .fetching := hs.trans ho.symm
      cases hb : p.tasks.guarded.buffer with
      | nil =>
        rw [take_nil hb]
        simp only [ThreadPool.advance,Queue.move,List.drop_left,ThreadPool.heed]
        exact .drained hs hb (hc hb)
      | cons task rest =>
        rw [take_cons hb]
        simp only [ThreadPool.advance,Queue.move,List.drop_left,ThreadPool.heed]
        exact .took hs hb
    | push task =>
      have hs : p.stages[thread]?=some (.submitting task) := hs.trans ho.symm
      rcases push_eq ha with ⟨hc,rfl⟩ | ⟨hc,_,rfl⟩
      · simp only [ThreadPool.advance,Queue.move,List.drop_left,ThreadPool.heed]
        exact .refused hs hc
      · simp only [ThreadPool.advance,Queue.move,List.drop_left,ThreadPool.heed]
        exact .pushed hs hc
    | _ => exact absurd ho (by simp only [stageOf,reduceCtorEq,not_false_eq_true])

/-- A step that only moves threads between waiting and waking is silent. -/
theorem goesOn_silent {action : ConcurrentQueue.Action Task} (hg : goesOn action=true)
    (hq : p.tasks.step capacity action=some q) :
    Silent p.tasks q ∨ ∃ thread operation expired,
      p.tasks.threads[thread]?=some (.woken operation expired) ∧
        q=p.tasks.attempt capacity thread operation expired := by
  have hmove : ∀ (r : Queue Task) (thread : ℕ) (old new : Phase Task),
      r.threads[thread]?=some old → (∀ operation, place new=some operation →
        place old=some operation) → Silent r (r.move thread new) := by
    intro r thread old new ht hp
    refine ⟨rfl,rfl,?_⟩
    intro other phase operation ho hop
    rcases getElem?_set_cases ho with ⟨he,hn⟩ | ⟨_,hk⟩
    · rw [hn] at hop
      exact ⟨old,he ▸ ht,hp operation hop⟩
    · exact ⟨phase,hk,hop⟩
  cases action with
  | resume thread =>
    simp only [Queue.step] at hq
    split at hq
    · next operation expired ht =>
      exact Or.inr ⟨thread,operation,expired,ht,(Option.some.inj hq).symm⟩
    · cases hq
  | wake thread =>
    simp only [Queue.step] at hq
    split at hq
    · next operation ht =>
      rw [←Option.some.inj hq]
      exact Or.inl (hmove p.tasks thread _ _ ht (fun _ hp => hp))
    · cases hq
  | notify thread chosen =>
    cases chosen with
    | none =>
      simp only [Queue.step] at hq
      split at hq
      · next ht =>
        rw [←Option.some.inj (Option.ite_none_left_eq_some.mp hq).2]
        exact Or.inl (hmove p.tasks thread _ _ ht (by intros; contradiction))
      · cases hq
    | some chosen =>
      simp only [Queue.step] at hq
      split at hq
      · next condition operation ht hc =>
        rw [←Option.some.inj (Option.ite_none_right_eq_some.mp hq).2]
        have hne : thread≠chosen := by
          rintro rfl
          cases ht.symm.trans hc
        have h1 := hmove p.tasks thread _ .idle ht (by intros; contradiction)
        have h2 := hmove (p.tasks.move thread .idle) chosen _ (.woken operation false)
          ((getElem?_move hne).trans hc) (fun _ hp => hp)
        refine Or.inl ⟨rfl,rfl,?_⟩
        intro other phase operation ho hop
        obtain ⟨before,hb,hbp⟩ := h2.places other phase operation ho hop
        exact h1.places other before operation hb hbp
      · cases hq
  | broadcast thread =>
    simp only [Queue.step] at hq
    split at hq
    · next condition rest ht =>
      rw [←Option.some.inj hq]
      refine Or.inl ⟨rfl,rfl,?_⟩
      intro other phase operation ho hop
      rcases getElem?_set_cases ho with ⟨_,hn⟩ | ⟨_,hk⟩
      · rw [hn] at hop
        split at hop
        · cases hop
        · cases hop
      · obtain ⟨before,hb,hr⟩ := Option.map_eq_some_iff.mp ((List.getElem?_map ..).symm.trans hk)
        refine ⟨before,hb,?_⟩
        rw [←hr] at hop
        cases before with
        | parked waiting =>
          rw [Phase.roused] at hop
          split at hop
          · exact hop
          · exact hop
        | _ => exact hop
    · cases hq
  | _ => exact absurd hg Bool.false_ne_true

/-- Every step does one of these things. -/
theorem step_effect {action : Action} (hf : Fits p) (h : p.step capacity action=some p') :
    PoolEffect p p' := by
  have hcall : ∀ {thread : ℕ} {operation : Operation Task} {stage : Stage},
      p.stages[thread]?=some stage → stageOf operation=some stage →
      (p.tasks.step capacity (.call thread operation)).map p.advance=some p' →
      PoolEffect p p' := by
    intro thread operation stage hs ho hm
    obtain ⟨q,hq,rfl⟩ := Option.map_eq_some_iff.mp hm
    simp only [Queue.step] at hq
    split at hq
    · rw [←Option.some.inj hq]
      exact attempt_effect hs ho
    · cases hq
  cases action with
  | fetch thread =>
    simp only [ThreadPool.step] at h
    split at h
    · next hs => exact hcall hs rfl h
    · cases h
  | submit thread submission =>
    simp only [ThreadPool.step] at h
    split at h
    · next hs =>
      split at h
      · rw [←Option.some.inj h]
        exact .rejects
      · rw [←Option.some.inj h]
        exact .submits hs
    · cases h
  | push thread =>
    simp only [ThreadPool.step] at h
    split at h
    · next hs => exact hcall hs rfl h
    · cases h
  | inside action =>
    simp only [ThreadPool.step] at h
    obtain ⟨hg,hm⟩ := Option.ite_none_right_eq_some.mp h
    obtain ⟨q,hq,rfl⟩ := Option.map_eq_some_iff.mp hm
    rcases goesOn_silent hg hq with hs | ⟨thread,operation,expired,ht,rfl⟩
    · have hd : p.advance q={p with tasks := q} := by
        simp only [ThreadPool.advance,hs.history_eq,List.drop_length,ThreadPool.heed]
      rw [hd]
      exact .silent hs
    · obtain ⟨stage,hs,ho⟩ := hf thread _ operation ht rfl
      exact attempt_effect hs ho
  | activate thread =>
    simp only [ThreadPool.step] at h
    split at h
    · next hs _ =>
      rw [←Option.some.inj h]
      exact .activates hs
    · cases h
  | run thread throws =>
    simp only [ThreadPool.step] at h
    split at h
    · next hs =>
      rw [←Option.some.inj h]
      exact .runs hs
    · cases h
  | count thread =>
    simp only [ThreadPool.step] at h
    split at h
    · next hs =>
      rw [←Option.some.inj h]
      exact .counts hs rfl
    · next hs =>
      rw [←Option.some.inj h]
      exact .counts hs (Nat.add_right_comm p.completed 1 p.failed)
    · cases h
  | deactivate thread =>
    simp only [ThreadPool.step] at h
    split at h
    · next hs =>
      rw [←Option.some.inj h]
      exact .deactivates hs
    · cases h
  | acknowledge thread =>
    simp only [ThreadPool.step] at h
    split at h
    · next hs _ =>
      rw [←Option.some.inj h]
      exact .acknowledges hs
    · cases h
  | stop thread =>
    simp only [ThreadPool.step] at h
    split at h
    · next hs =>
      split at h
      · rw [←Option.some.inj h]
        exact .stays
      · rw [←Option.some.inj h]
        exact .stops hs
    · cases h
  | close thread =>
    simp only [ThreadPool.step] at h
    split at h
    · next hs =>
      obtain ⟨q,hq,rfl⟩ := Option.map_eq_some_iff.mp h
      simp only [Queue.step] at hq
      split at hq
      · cases hc : p.tasks.guarded.closed with
        | true =>
          rw [if_pos hc] at hq
          rw [←Option.some.inj hq]
          exact .closed hs
        | false =>
          rw [if_neg (Bool.eq_false_iff.mp hc)] at hq
          rw [←Option.some.inj hq]
          exact .closes hs hc
      · cases hq
    · cases h
  | join thread =>
    simp only [ThreadPool.step] at h
    split at h
    · next worker hs _ =>
      split at h
      · split at h
        · next hw =>
          rw [←Option.some.inj h]
          exact .joins hs hw
        · cases h
      · next hw =>
        rw [←Option.some.inj h]
        exact .joined hs (Nat.le_of_not_lt hw)
    · cases h

/-- The queue of a pool runs as the queue's machine. -/
theorem reaches_queue (h : (machine capacity).Reaches p) :
    (ConcurrentQueue.machine Task capacity).Reaches p.tasks := by
  refine h.invariant (P := fun p => (ConcurrentQueue.machine Task capacity).Reaches p.tasks) ?_ ?_
  · rintro p ⟨workers,callers,hp⟩
    rw [WorkerPool.make] at hp
    split at hp
    · cases hp
    · next tasks ht =>
      rw [←Option.some.inj (Option.ite_none_left_eq_some.mp hp).2]
      exact .start ⟨_,ht⟩
  · intro p action p' hr hs
    have hqueue : ∀ {queued : ConcurrentQueue.Action Task} {f : Queue Task → ThreadPool},
        (∀ q, (f q).tasks=q) → (p.tasks.step capacity queued).map f=some p' →
        (ConcurrentQueue.machine Task capacity).Reaches p'.tasks := by
      intro queued f hf hm
      obtain ⟨q,hq,rfl⟩ := Option.map_eq_some_iff.mp hm
      rw [hf]
      exact .step hr hq
    have hsame : ∀ {r : ThreadPool}, some r=some p' → r.tasks=p.tasks →
        (ConcurrentQueue.machine Task capacity).Reaches p'.tasks := by
      intro r he hr'
      rw [←Option.some.inj he,hr']
      exact hr
    change p.step capacity action=some p' at hs
    cases action with
    | inside action => exact hqueue (fun _ => rfl) (Option.ite_none_right_eq_some.mp hs).2
    | _ =>
      simp only [ThreadPool.step] at hs
      repeat' split at hs
      all_goals first
        | exact hqueue (fun _ => rfl) hs
        | exact hsame hs rfl
        | simp only [reduceCtorEq] at hs

/-- A worker, wherever it stands. -/
def works : Stage → Bool
  | .fetching => true
  | .fetched _ => true
  | .invoking _ => true
  | .settling _ => true
  | .leaving => true
  | .exited => true
  | _ => false

/-- One for a worker that has the task in its hands. -/
def holds (task : Task) : Stage → ℕ
  | .fetched other => if other=task then 1 else 0
  | .invoking other => if other=task then 1 else 0
  | _ => 0

/-- One for a caller whose `push` of the task is not decided yet. -/
def pends (task : Task) : Stage → ℕ
  | .submitting other => if other=task then 1 else 0
  | _ => 0

/-- One for a worker whose task has run and is not counted yet. -/
def owes : Stage → ℕ
  | .settling _ => 1
  | _ => 0

/-- One for a worker that `active_` counts. -/
def busy : Stage → ℕ
  | .invoking _ => 1
  | .settling _ => 1
  | .leaving => 1
  | _ => 0

/-- How often a call for the task was turned away. -/
def refusals (task : Task) (replies : List (Task×Reply)) : ℕ :=
  replies.countP (fun reply => decide (reply.1=task ∧ reply.2≠.accepted))

/-- The first threads are the workers. -/
structure Manned (p : ThreadPool) : Prop where
  positive : 0 < p.workerCount
  enough : p.workerCount≤p.stages.length
  first : ∀ (thread : ℕ) (stage : Stage), p.stages[thread]?=some stage →
    (works stage=true ↔ thread < p.workerCount)

/-- A popped task has run or is in the hands of one worker. -/
def Held (p : ThreadPool) : Prop :=
  ∀ task, (poppedItems p.tasks.history).count task=p.ran.count task+weigh (holds task) p.stages

/-- The counters count what has run and who is busy. -/
def Counted (p : ThreadPool) : Prop :=
  p.completed+p.failed+weigh owes p.stages=p.ran.length ∧ p.active=weigh busy p.stages

/-- A task is accepted, about to be pushed or turned away, once in all. -/
def Ledger (p : ThreadPool) : Prop :=
  ∀ task, (pushedItems p.tasks.history).count task+weigh (pends task) p.stages+
    refusals task p.replies ≤ if task.call < p.issued then 1 else 0

/-- Who is told that a task is accepted has pushed it. -/
def Told (p : ThreadPool) : Prop :=
  ∀ task, (task,.accepted)∈p.replies ∨ .accepted task∈p.stages →
    task∈pushedItems p.tasks.history

/-- A worker leaves when the queue is closed and drained, and the queue is
closed by a shutdown, which then joins the workers one by one. -/
structure Closed (p : ThreadPool) : Prop where
  left : .exited∈p.stages → p.tasks.guarded.closed=true ∧ p.tasks.guarded.buffer=[]
  stopped : p.tasks.guarded.closed=true ∨ .closing∈p.stages → p.stopping=true
  joining : ∀ worker, .joining worker∈p.stages → ∀ other, other < worker →
    p.stages[other]?=some .exited
  joined : p.joined=true → ∀ other, other < p.workerCount → p.stages[other]?=some .exited

section Steps

variable {old new : Stage} {event : Event Task}

/-- It stands outside `push` and `pop`. -/
def outside : Stage → Bool
  | .fetching => false
  | .submitting _ => false
  | _ => true

/-- A thread outside the queue's operations goes where it likes. -/
theorem Fits.leave (h : Fits p) (hs : p.stages[thread]?=some old)
    (ho : outside old=true) (ht : p'.tasks.threads=p.tasks.threads)
    (hn : p'.stages=p.stages.set thread new) : Fits p' := by
  intro other phase operation hp hop
  rw [ht] at hp
  obtain ⟨stage,hst,hso⟩ := h other phase operation hp hop
  have hne : thread≠other := by
    rintro rfl
    rw [Option.some.inj (hs.symm.trans hst)] at ho
    cases operation with
    | pop =>
      rw [←Option.some.inj hso] at ho
      exact absurd ho Bool.false_ne_true
    | push task =>
      rw [←Option.some.inj hso] at ho
      exact absurd ho Bool.false_ne_true
    | _ => cases hso
  rw [hn,getElem?_move hne]
  exact ⟨stage,hst,hso⟩

/-- A thread whose operation was decided is outside of it. -/
theorem Fits.decided (h : Fits p) (phase : Phase Task) (hp : place phase=none)
    (ht : p'.tasks.threads=p.tasks.threads.set thread phase)
    (hn : p'.stages=p.stages.set thread new) : Fits p' := by
  intro other found operation hf hop
  rw [ht] at hf
  rcases getElem?_set_cases hf with ⟨_,he⟩ | ⟨hne,hk⟩
  · rw [he,hp] at hop
    cases hop
  · obtain ⟨stage,hst,hso⟩ := h other found operation hk hop
    rw [hn,getElem?_move hne]
    exact ⟨stage,hst,hso⟩

/-- Whoever is inside an operation stays where it was called. -/
theorem Fits.step (h : Fits p) (he : PoolEffect p p') : Fits p' := by
  cases he with
  | silent hq =>
    intro other phase operation hp hop
    obtain ⟨before,hb,hbp⟩ := hq.places other phase operation hp hop
    exact h other before operation hb hbp
  | @waits thread operation stage hs ho =>
    intro other phase found hp hop
    rcases getElem?_set_cases hp with ⟨he,hn⟩ | ⟨_,hk⟩
    · rw [hn] at hop
      exact ⟨stage,he ▸ hs,Option.some.inj hop ▸ ho⟩
    · exact h other phase found hk hop
  | took hs hb => exact h.decided (.notifying .notFull) rfl rfl rfl
  | drained hs hb hc => exact h.decided .idle rfl rfl rfl
  | pushed hs hc => exact h.decided (.notifying .notEmpty) rfl rfl rfl
  | refused hs hc => exact h.decided .idle rfl rfl rfl
  | submits hs => exact h.leave hs rfl rfl rfl
  | rejects => exact h
  | activates hs => exact h.leave hs rfl rfl rfl
  | runs hs => exact h.leave hs rfl rfl rfl
  | counts hs hn => exact h.leave hs rfl rfl rfl
  | deactivates hs => exact h.leave hs rfl rfl rfl
  | acknowledges hs => exact h.leave hs rfl rfl rfl
  | stays => exact h
  | stops hs => exact h.leave hs rfl rfl rfl
  | closes hs hc => exact h.decided (.broadcasting _) rfl rfl rfl
  | closed hs => exact h.leave hs rfl rfl rfl
  | joins hs hw => exact h.leave hs rfl rfl rfl
  | joined hs hw => exact h.leave hs rfl rfl rfl

/-- Nobody becomes a worker or ceases to be one. -/
theorem Manned.moved (h : Manned p) (hs : p.stages[thread]?=some old)
    (hn : p'.stages=p.stages.set thread new) (hw : works new=works old)
    (hc : p'.workerCount=p.workerCount) : Manned p' := by
  refine ⟨hc ▸ h.positive,by rw [hn,hc,List.length_set]; exact h.enough,?_⟩
  intro other stage ho
  rw [hn] at ho
  rw [hc]
  rcases getElem?_set_cases ho with ⟨he,hst⟩ | ⟨_,hk⟩
  · rw [hst,hw,←he]
    exact h.first thread old hs
  · exact h.first other stage hk

theorem Manned.step (h : Manned p) (he : PoolEffect p p') : Manned p' := by
  cases he with
  | silent hq => exact ⟨h.positive,h.enough,h.first⟩
  | waits hs ho => exact ⟨h.positive,h.enough,h.first⟩
  | took hs hb => exact h.moved hs rfl rfl rfl
  | drained hs hb hc => exact h.moved hs rfl rfl rfl
  | pushed hs hc => exact h.moved hs rfl rfl rfl
  | refused hs hc => exact h.moved hs rfl rfl rfl
  | submits hs => exact h.moved hs rfl rfl rfl
  | rejects => exact ⟨h.positive,h.enough,h.first⟩
  | activates hs => exact h.moved hs rfl rfl rfl
  | runs hs => exact h.moved hs rfl rfl rfl
  | counts hs hn => exact h.moved hs rfl rfl rfl
  | deactivates hs => exact h.moved hs rfl rfl rfl
  | acknowledges hs => exact h.moved hs rfl rfl rfl
  | stays => exact h
  | stops hs => exact h.moved hs rfl rfl rfl
  | closes hs hc => exact h.moved hs rfl rfl rfl
  | closed hs => exact h.moved hs rfl rfl rfl
  | joins hs hw => exact h.moved hs rfl rfl rfl
  | joined hs hw => exact h.moved hs rfl rfl rfl

/-- An event that takes nothing out of the queue. -/
theorem popped_same (history : List (Event Task)) (he : poppedBy event=none) :
    poppedItems (history++[event])=poppedItems history := by
  rw [poppedItems_snoc,he,Option.toList_none,List.append_nil]

/-- An event that puts nothing into the queue. -/
theorem pushed_same (history : List (Event Task)) (he : pushedBy event=none) :
    pushedItems (history++[event])=pushedItems history := by
  rw [pushedItems_snoc,he,Option.toList_none,List.append_nil]

/-- What is in hand stays there when nothing is popped or run. -/
theorem Held.same (h : Held p)
    (hh : poppedItems p'.tasks.history=poppedItems p.tasks.history) (hr : p'.ran=p.ran)
    (hw : ∀ task, weigh (holds task) p'.stages=weigh (holds task) p.stages) : Held p' := by
  intro task
  rw [hh,hr,hw]
  exact h task

theorem Held.step (h : Held p) (he : PoolEffect p p') : Held p' := by
  cases he with
  | silent hq => exact h.same (by rw [hq.history_eq]) rfl (fun _ => rfl)
  | waits hs ho => exact h
  | @took thread task rest hs hb =>
    intro other
    have hw := weigh_set (holds other) (.fetched task) hs
    have hh := h other
    simp only [holds] at hw
    simp only [ThreadPool.goes,poppedItems_snoc,poppedBy,Option.toList_some,List.count_append,
      List.count_singleton,beq_iff_eq]
    omega
  | drained hs hb hc => exact h.same (popped_same _ rfl) rfl (fun _ => weigh_set_same hs rfl)
  | pushed hs hc => exact h.same (popped_same _ rfl) rfl (fun _ => weigh_set_same hs rfl)
  | refused hs hc => exact h.same (popped_same _ rfl) rfl (fun _ => weigh_set_same hs rfl)
  | submits hs => exact h.same rfl rfl (fun _ => weigh_set_same hs rfl)
  | rejects => exact h
  | activates hs => exact h.same rfl rfl (fun _ => weigh_set_same hs rfl)
  | @runs thread task failed hs =>
    intro other
    have hw := weigh_set (holds other) (.settling failed) hs
    have hh := h other
    simp only [holds] at hw
    simp only [ThreadPool.goes,List.count_append,List.count_singleton,beq_iff_eq]
    omega
  | counts hs hn => exact h.same rfl rfl (fun _ => weigh_set_same hs rfl)
  | deactivates hs => exact h.same rfl rfl (fun _ => weigh_set_same hs rfl)
  | acknowledges hs => exact h.same rfl rfl (fun _ => weigh_set_same hs rfl)
  | stays => exact h
  | stops hs => exact h.same rfl rfl (fun _ => weigh_set_same hs rfl)
  | closes hs hc => exact h.same (popped_same _ rfl) rfl (fun _ => weigh_set_same hs rfl)
  | closed hs => exact h.same rfl rfl (fun _ => weigh_set_same hs rfl)
  | joins hs hw => exact h.same rfl rfl (fun _ => weigh_set_same hs rfl)
  | joined hs hw => exact h.same rfl rfl (fun _ => weigh_set_same hs rfl)

/-- The counters stay right when nothing runs or is counted. -/
theorem Counted.same (h : Counted p) (hc : p'.completed=p.completed) (hf : p'.failed=p.failed)
    (ha : p'.active=p.active) (hr : p'.ran=p.ran)
    (ho : weigh owes p'.stages=weigh owes p.stages)
    (hb : weigh busy p'.stages=weigh busy p.stages) : Counted p' := by
  rw [Counted,hc,hf,ha,hr,ho,hb]
  exact h

theorem Counted.step (h : Counted p) (he : PoolEffect p p') : Counted p' := by
  have hidle : ∀ {r : ThreadPool} {thread : ℕ} {old new : Stage}, p.stages[thread]?=some old →
      r.stages=p.stages.set thread new → owes new=owes old → busy new=busy old →
      r.completed=p.completed → r.failed=p.failed → r.active=p.active → r.ran=p.ran →
      Counted r := by
    intro r thread old new hs hst ho hb hc hf ha hr
    exact h.same hc hf ha hr (hst ▸ weigh_set_same hs ho) (hst ▸ weigh_set_same hs hb)
  cases he with
  | silent hq => exact h
  | waits hs ho => exact h
  | took hs hb => exact hidle hs rfl rfl rfl rfl rfl rfl rfl
  | drained hs hb hc => exact hidle hs rfl rfl rfl rfl rfl rfl rfl
  | pushed hs hc => exact hidle hs rfl rfl rfl rfl rfl rfl rfl
  | refused hs hc => exact hidle hs rfl rfl rfl rfl rfl rfl rfl
  | submits hs => exact hidle hs rfl rfl rfl rfl rfl rfl rfl
  | rejects => exact h
  | @activates thread task hs =>
    have ho := weigh_set owes (.invoking task) hs
    have hb := weigh_set busy (.invoking task) hs
    obtain ⟨hc,ha⟩ := h
    simp only [owes] at ho
    simp only [busy] at hb
    simp only [Counted,ThreadPool.goes]
    omega
  | @runs thread task failed hs =>
    have ho := weigh_set owes (.settling failed) hs
    have hb := weigh_set busy (.settling failed) hs
    obtain ⟨hc,ha⟩ := h
    simp only [owes] at ho
    simp only [busy] at hb
    simp only [Counted,ThreadPool.goes,List.length_append,List.length_singleton]
    omega
  | @counts thread completed failed failure hs hn =>
    have ho := weigh_set owes .leaving hs
    have hb := weigh_set busy .leaving hs
    obtain ⟨hc,ha⟩ := h
    simp only [owes] at ho
    simp only [busy] at hb
    simp only [Counted,ThreadPool.goes]
    omega
  | @deactivates thread hs =>
    have ho := weigh_set owes .fetching hs
    have hb := weigh_set busy .fetching hs
    obtain ⟨hc,ha⟩ := h
    simp only [owes] at ho
    simp only [busy] at hb
    simp only [Counted,ThreadPool.goes]
    omega
  | acknowledges hs => exact hidle hs rfl rfl rfl rfl rfl rfl rfl
  | stays => exact h
  | stops hs => exact hidle hs rfl rfl rfl rfl rfl rfl rfl
  | closes hs hc => exact hidle hs rfl rfl rfl rfl rfl rfl rfl
  | closed hs => exact hidle hs rfl rfl rfl rfl rfl rfl rfl
  | joins hs hw => exact hidle hs rfl rfl rfl rfl rfl rfl rfl
  | joined hs hw => exact hidle hs rfl rfl rfl rfl rfl rfl rfl

/-- No refusal reads as an acceptance. -/
theorem refusal_ne (task : Task) : task.refusal≠.accepted := by
  rw [Task.refusal]
  cases task.submission <;> exact nofun

theorem refusals_snoc (task : Task) (replies : List (Task×Reply)) (reply : Task×Reply) :
    refusals task (replies++[reply])=
      refusals task replies+if reply.1=task ∧ reply.2≠.accepted then 1 else 0 := by
  simp only [refusals,List.countP_append,List.countP_singleton,decide_eq_true_eq]

/-- The ledger stays right when nothing is handed in or decided. -/
theorem Ledger.same (h : Ledger p)
    (hp : pushedItems p'.tasks.history=pushedItems p.tasks.history)
    (hw : ∀ task, weigh (pends task) p'.stages=weigh (pends task) p.stages)
    (hr : ∀ task, refusals task p'.replies=refusals task p.replies)
    (hi : p'.issued=p.issued) : Ledger p' := by
  intro task
  rw [hp,hw,hr,hi]
  exact h task

theorem Ledger.step (h : Ledger p) (he : PoolEffect p p') : Ledger p' := by
  have hidle : ∀ {r : ThreadPool} {thread : ℕ} {old new : Stage}, p.stages[thread]?=some old →
      r.stages=p.stages.set thread new →
      pushedItems r.tasks.history=pushedItems p.tasks.history →
      (∀ task, pends task new=pends task old) → r.replies=p.replies → r.issued=p.issued →
      Ledger r := by
    intro r thread old new hs hst hp hw hr hi
    exact h.same hp (fun task => hst ▸ weigh_set_same hs (hw task)) (fun _ => hr ▸ rfl) hi
  cases he with
  | silent hq => exact h.same (by rw [hq.history_eq]) (fun _ => rfl) (fun _ => rfl) rfl
  | waits hs ho => exact h
  | took hs hb => exact hidle hs rfl (pushed_same _ rfl) (fun _ => rfl) rfl rfl
  | drained hs hb hc => exact hidle hs rfl (pushed_same _ rfl) (fun _ => rfl) rfl rfl
  | @pushed thread task hs hc =>
    intro other
    have hw := weigh_set (pends other) (.accepted task) hs
    refine Nat.le_trans ?_ (h other)
    simp only [pends] at hw
    simp only [ThreadPool.goes,pushedItems_snoc,pushedBy,carried,Option.toList_some,
      List.count_append,List.count_singleton,beq_iff_eq]
    omega
  | @refused thread task hs hc =>
    intro other
    have hw := weigh_set (pends other) .resting hs
    have hp : pushedItems (p.tasks.history++[.answered thread (.push task) .closed none])=
        pushedItems p.tasks.history := pushed_same _ rfl
    refine Nat.le_trans ?_ (h other)
    simp only [pends] at hw
    simp only [ThreadPool.goes,hp,refusals_snoc,refusal_ne,not_false_eq_true,ne_eq,and_true]
    omega
  | @submits thread submission hs =>
    intro other
    have hw := weigh_set (pends other) (.submitting ⟨p.issued,submission⟩) hs
    have hh := h other
    simp only [pends] at hw
    simp only [ThreadPool.goes]
    by_cases he : (⟨p.issued,submission⟩ : Task)=other
    · rw [←he] at hh hw ⊢
      simp only [if_true,Nat.lt_irrefl,if_false] at hh hw
      rw [if_pos (Nat.lt_succ_self _)]
      omega
    · rw [if_neg he] at hw
      split at hh <;> split <;> omega
  | @rejects submission =>
    intro other
    have hh := h other
    rw [refusals_snoc]
    simp only [refusal_ne,not_false_eq_true,ne_eq,and_true]
    by_cases he : (⟨p.issued,submission⟩ : Task)=other
    · rw [←he] at hh ⊢
      simp only [Nat.lt_irrefl,if_false] at hh
      rw [if_pos rfl,if_pos (Nat.lt_succ_self _)]
      omega
    · rw [if_neg he]
      split at hh <;> split <;> omega
  | activates hs => exact hidle hs rfl rfl (fun _ => rfl) rfl rfl
  | runs hs => exact hidle hs rfl rfl (fun _ => rfl) rfl rfl
  | counts hs hn => exact hidle hs rfl rfl (fun _ => rfl) rfl rfl
  | deactivates hs => exact hidle hs rfl rfl (fun _ => rfl) rfl rfl
  | acknowledges hs =>
    refine h.same rfl (fun _ => weigh_set_same hs rfl) (fun other => ?_) rfl
    rw [refusals_snoc,if_neg (fun hr => hr.2 rfl),Nat.add_zero]
  | stays => exact h
  | stops hs => exact hidle hs rfl rfl (fun _ => rfl) rfl rfl
  | closes hs hc => exact hidle hs rfl (pushed_same _ rfl) (fun _ => rfl) rfl rfl
  | closed hs => exact hidle hs rfl rfl (fun _ => rfl) rfl rfl
  | joins hs hw => exact hidle hs rfl rfl (fun _ => rfl) rfl rfl
  | joined hs hw => exact hidle hs rfl rfl (fun _ => rfl) rfl rfl

/-- Who is told is still right as long as nothing pushed is forgotten. -/
theorem Told.moved (h : Told p) (hn : p'.stages=p.stages.set thread new)
    (hp : ∀ task∈pushedItems p.tasks.history, task∈pushedItems p'.tasks.history)
    (ht : ∀ task, (task,.accepted)∈p'.replies ∨ .accepted task=new →
      (task,.accepted)∈p.replies ∨ task∈pushedItems p'.tasks.history) : Told p' := by
  intro task hm
  have hcase : (task,.accepted)∈p.replies ∨ .accepted task∈p.stages ∨
      task∈pushedItems p'.tasks.history := by
    rcases hm with hm | hm
    · exact (ht task (Or.inl hm)).imp id Or.inr
    · rw [hn] at hm
      rcases mem_set_cases hm with he | hk
      · exact (ht task (Or.inr he)).imp id Or.inr
      · exact Or.inr (Or.inl hk)
  rcases hcase with hr | hk | hd
  · exact hp task (h task (Or.inl hr))
  · exact hp task (h task (Or.inr hk))
  · exact hd

theorem Told.step (h : Told p) (he : PoolEffect p p') : Told p' := by
  have hidle : ∀ {r : ThreadPool} {thread : ℕ} {new : Stage}, r.stages=p.stages.set thread new →
      pushedItems r.tasks.history=pushedItems p.tasks.history → (∀ task, .accepted task≠new) →
      (∀ task, (task,.accepted)∈r.replies → (task,.accepted)∈p.replies) → Told r := by
    intro r thread new hst hp hn hr
    refine h.moved hst (fun _ hm => hp ▸ hm) ?_
    rintro task (hm | hm)
    · exact Or.inl (hr task hm)
    · exact absurd hm (hn task)
  have hturned : ∀ (task other : Task), (other,.accepted)∈p.replies++[(task,task.refusal)] →
      (other,.accepted)∈p.replies := by
    intro task other hm
    rcases List.mem_append.mp hm with hm | hm
    · exact hm
    · exact absurd (Prod.mk.inj (List.mem_singleton.mp hm)).2.symm (refusal_ne task)
  cases he with
  | silent hq =>
    intro task hm
    rw [hq.history_eq]
    exact h task hm
  | waits hs ho => exact h
  | took hs hb => exact hidle rfl (pushed_same _ rfl) nofun (fun _ hm => hm)
  | drained hs hb hc => exact hidle rfl (pushed_same _ rfl) nofun (fun _ hm => hm)
  | @pushed thread task hs hc =>
    have hp : pushedItems (p.tasks.history++[.answered thread (.push task) .ok none])=
        pushedItems p.tasks.history++[task] := pushedItems_snoc
    refine h.moved rfl (fun other hm => ?_) ?_
    · rw [hp]
      exact List.mem_append_left _ hm
    · rintro other (hm | hm)
      · exact Or.inl hm
      · rw [hp,Stage.accepted.inj hm]
        exact Or.inr (List.mem_append_right _ (List.mem_singleton_self _))
  | refused hs hc => exact hidle rfl (pushed_same _ rfl) nofun (hturned _)
  | submits hs => exact hidle rfl rfl nofun (fun _ hm => hm)
  | rejects =>
    rintro task (hm | hm)
    · exact h task (Or.inl (hturned _ task hm))
    · exact h task (Or.inr hm)
  | activates hs => exact hidle rfl rfl nofun (fun _ hm => hm)
  | runs hs => exact hidle rfl rfl nofun (fun _ hm => hm)
  | counts hs hn => exact hidle rfl rfl nofun (fun _ hm => hm)
  | deactivates hs => exact hidle rfl rfl nofun (fun _ hm => hm)
  | @acknowledges thread task hs =>
    refine h.moved rfl (fun _ hm => hm) ?_
    rintro other (hm | hm)
    · rcases List.mem_append.mp hm with hm | hm
      · exact Or.inl hm
      · rw [(Prod.mk.inj (List.mem_singleton.mp hm)).1]
        exact Or.inr (h task (Or.inr (List.mem_of_getElem? hs)))
    · exact absurd hm nofun
  | stays => exact h
  | stops hs => exact hidle rfl rfl nofun (fun _ hm => hm)
  | closes hs hc => exact hidle rfl (pushed_same _ rfl) nofun (fun _ hm => hm)
  | closed hs => exact hidle rfl rfl nofun (fun _ hm => hm)
  | joins hs hw => exact hidle rfl rfl nofun (fun _ hm => hm)
  | joined hs hw => exact hidle rfl rfl nofun (fun _ hm => hm)

/-- A worker that has left stays where it is when another thread moves. -/
theorem exited_moved {other : ℕ} (hs : p.stages[thread]?=some old) (ho : old≠.exited)
    (hx : p.stages[other]?=some .exited) : (p.stages.set thread new)[other]?=some .exited := by
  rw [getElem?_move,hx]
  rintro rfl
  exact ho (Option.some.inj (hs.symm.trans hx))

/-- A thread moves, and nobody closes, joins or leaves. -/
theorem Closed.idle (h : Closed p) (hs : p.stages[thread]?=some old) (ho : old≠.exited)
    (hn : p'.stages=p.stages.set thread new)
    (hg : .exited∈p.stages → p'.tasks.guarded.closed=true ∧ p'.tasks.guarded.buffer=[])
    (hc : p'.tasks.guarded.closed=p.tasks.guarded.closed) (hst : p'.stopping=p.stopping)
    (hw : p'.workerCount=p.workerCount) (hj : p'.joined=p.joined) (hx : .exited≠new)
    (hcl : .closing≠new) (hjn : ∀ worker, .joining worker≠new) : Closed p' := by
  refine ⟨?_,?_,?_,?_⟩
  · intro hm
    rw [hn] at hm
    exact hg ((mem_set_cases hm).resolve_left hx)
  · intro hm
    rw [hst]
    refine h.stopped (hm.imp (fun ho => hc ▸ ho) (fun hm => ?_))
    rw [hn] at hm
    exact (mem_set_cases hm).resolve_left hcl
  · intro worker hm other hlt
    rw [hn] at hm ⊢
    exact exited_moved hs ho
      (h.joining worker ((mem_set_cases hm).resolve_left (hjn worker)) other hlt)
  · intro hjoin other hlt
    rw [hn]
    exact exited_moved hs ho (h.joined (hj ▸ hjoin) other (hw ▸ hlt))

/-- A thread that moves elsewhere leaves the shutdown to whoever began it. -/
theorem Closed.still (h : Closed p)
    (hm : p.tasks.guarded.closed=true ∨ .closing∈p.stages.set thread new) (hn : .closing≠new) :
    p.stopping=true :=
  h.stopped (hm.imp id (fun hk => (mem_set_cases hk).resolve_left hn))

theorem Closed.step (h : Closed p) (he : PoolEffect p p') : Closed p' := by
  have hidle : ∀ {r : ThreadPool} {thread : ℕ} {old new : Stage}, p.stages[thread]?=some old →
      r.stages=p.stages.set thread new → r.tasks.guarded=p.tasks.guarded →
      r.stopping=p.stopping → r.workerCount=p.workerCount → r.joined=p.joined → old≠.exited →
      .exited≠new → .closing≠new → (∀ worker, .joining worker≠new) → Closed r := by
    intro r thread old new hs hn hg hst hw hj ho hx hcl hjn
    exact h.idle hs ho hn (fun hm => hg ▸ h.left hm) (by rw [hg]) hst hw hj hx hcl hjn
  cases he with
  | silent hq =>
    have hg := hq.guarded_eq
    exact ⟨fun hm => hg ▸ h.left hm,fun hm => h.stopped (hm.imp (fun ho => hg ▸ ho) id),
      h.joining,h.joined⟩
  | waits hs ho => exact ⟨h.left,h.stopped,h.joining,h.joined⟩
  | took hs hb =>
    refine h.idle hs nofun rfl (fun hm => ?_) rfl rfl rfl rfl nofun nofun nofun
    exact absurd ((h.left hm).2.symm.trans hb) nofun
  | @drained thread hs hb hc =>
    refine ⟨fun _ => ⟨hc,hb⟩,?_,?_,?_⟩
    · exact fun hm => h.still hm nofun
    · intro worker hm other hlt
      exact exited_moved hs nofun
        (h.joining worker ((mem_set_cases hm).resolve_left nofun) other hlt)
    · exact fun hj other hlt => exited_moved hs nofun (h.joined hj other hlt)
  | pushed hs hc =>
    refine h.idle hs nofun rfl (fun hm => ?_) rfl rfl rfl rfl nofun nofun nofun
    exact absurd ((h.left hm).1.symm.trans hc) nofun
  | refused hs hc => exact hidle hs rfl rfl rfl rfl rfl nofun nofun nofun nofun
  | submits hs => exact hidle hs rfl rfl rfl rfl rfl nofun nofun nofun nofun
  | rejects => exact ⟨h.left,h.stopped,h.joining,h.joined⟩
  | activates hs => exact hidle hs rfl rfl rfl rfl rfl nofun nofun nofun nofun
  | runs hs => exact hidle hs rfl rfl rfl rfl rfl nofun nofun nofun nofun
  | counts hs hn => exact hidle hs rfl rfl rfl rfl rfl nofun nofun nofun nofun
  | deactivates hs => exact hidle hs rfl rfl rfl rfl rfl nofun nofun nofun nofun
  | acknowledges hs => exact hidle hs rfl rfl rfl rfl rfl nofun nofun nofun nofun
  | stays => exact h
  | stops hs =>
    refine ⟨fun hm => h.left ((mem_set_cases hm).resolve_left nofun),fun _ => rfl,?_,?_⟩
    · intro worker hm other hlt
      exact exited_moved hs nofun
        (h.joining worker ((mem_set_cases hm).resolve_left nofun) other hlt)
    · exact fun hj other hlt => exited_moved hs nofun (h.joined hj other hlt)
  | closes hs hc =>
    have hstop := h.stopped (Or.inr (List.mem_of_getElem? hs))
    refine ⟨fun hm => ?_,fun _ => hstop,?_,?_⟩
    · exact absurd ((h.left ((mem_set_cases hm).resolve_left nofun)).1.symm.trans hc) nofun
    · intro worker hm other hlt
      rcases mem_set_cases hm with he | hk
      · rw [Stage.joining.inj he] at hlt
        exact absurd hlt (Nat.not_lt_zero other)
      · exact exited_moved hs nofun (h.joining worker hk other hlt)
    · exact fun hj other hlt => exited_moved hs nofun (h.joined hj other hlt)
  | closed hs =>
    have hstop := h.stopped (Or.inr (List.mem_of_getElem? hs))
    refine ⟨fun hm => h.left ((mem_set_cases hm).resolve_left nofun),fun _ => hstop,?_,?_⟩
    · intro worker hm other hlt
      rcases mem_set_cases hm with he | hk
      · rw [Stage.joining.inj he] at hlt
        exact absurd hlt (Nat.not_lt_zero other)
      · exact exited_moved hs nofun (h.joining worker hk other hlt)
    · exact fun hj other hlt => exited_moved hs nofun (h.joined hj other hlt)
  | @joins thread next hs hw =>
    refine ⟨fun hm => h.left ((mem_set_cases hm).resolve_left nofun),?_,?_,?_⟩
    · exact fun hm => h.still hm nofun
    · intro worker hm other hlt
      refine exited_moved hs nofun ?_
      rcases mem_set_cases hm with he | hk
      · rw [Stage.joining.inj he] at hlt
        rcases Nat.lt_succ_iff_lt_or_eq.mp hlt with hlt | rfl
        · exact h.joining next (List.mem_of_getElem? hs) other hlt
        · exact hw
      · exact h.joining worker hk other hlt
    · exact fun hj other hlt => exited_moved hs nofun (h.joined hj other hlt)
  | @joined thread next hs hw =>
    refine ⟨fun hm => h.left ((mem_set_cases hm).resolve_left nofun),?_,?_,?_⟩
    · exact fun hm => h.still hm nofun
    · intro worker hm other hlt
      exact exited_moved hs nofun
        (h.joining worker ((mem_set_cases hm).resolve_left nofun) other hlt)
    · intro _ other hlt
      exact exited_moved hs nofun
        (h.joining next (List.mem_of_getElem? hs) other (Nat.lt_of_lt_of_le hlt hw))

end Steps

/-- What holds of a pool and its counters. -/
structure Sound (p : ThreadPool) : Prop where
  fits : Fits p
  manned : Manned p
  held : Held p
  counted : Counted p
  ledger : Ledger p
  told : Told p
  closed : Closed p

/-- Every step keeps the pool sound. -/
theorem Sound.step (h : Sound p) (he : PoolEffect p p') : Sound p' :=
  ⟨h.fits.step he,h.manned.step he,h.held.step he,h.counted.step he,h.ledger.step he,
    h.told.step he,h.closed.step he⟩

/-- A new pool is sound. -/
theorem make_sound {workers callers : ℕ} (h : WorkerPool.make capacity workers callers=some p) :
    Sound p := by
  rw [WorkerPool.make] at h
  cases ht : ConcurrentQueue.make (α := Task) capacity (workers+callers) with
  | none =>
    rw [ht] at h
    cases h
  | some tasks =>
    rw [ht] at h
    obtain ⟨hpos,hp⟩ := Option.ite_none_left_eq_some.mp h
    have hp := Option.some.inj hp
    have hq := (make_eq ht).2
    have hst : ∀ stage∈p.stages, stage=.fetching ∨ stage=.resting := by
      intro stage hm
      rw [←hp] at hm
      exact (List.mem_append.mp hm).imp List.eq_of_mem_replicate List.eq_of_mem_replicate
    have hzero : ∀ {w : Stage → ℕ}, w .fetching=0 → w .resting=0 → weigh w p.stages=0 := by
      intro w hf hr
      refine weigh_zero (fun stage hm => ?_)
      rcases hst stage hm with rfl | rfl
      · exact hf
      · exact hr
    have hnot : ∀ {stage : Stage}, stage∈p.stages → stage≠.fetching → stage≠.resting → False :=
      fun hm hf hr => (hst _ hm).elim hf hr
    have hhist : p.tasks.history=[] := by rw [←hp,hq]
    refine ⟨?_,?_,?_,?_,?_,?_,?_⟩
    · intro thread phase operation hph hop
      rw [←hp,hq] at hph
      rw [List.eq_of_mem_replicate (List.mem_of_getElem? hph)] at hop
      cases hop
    · rw [←hp]
      refine ⟨Nat.pos_of_ne_zero hpos,?_,?_⟩
      · rw [List.length_append,List.length_replicate]
        exact Nat.le_add_right _ _
      intro thread stage hs
      by_cases hl : thread < workers
      · rw [List.getElem?_append_left (by rwa [List.length_replicate])] at hs
        rw [List.eq_of_mem_replicate (List.mem_of_getElem? hs)]
        exact iff_of_true rfl hl
      · rw [List.getElem?_append_right (by rw [List.length_replicate]; omega)] at hs
        rw [List.eq_of_mem_replicate (List.mem_of_getElem? hs)]
        exact iff_of_false Bool.false_ne_true hl
    · intro task
      rw [hhist,hzero rfl rfl,←hp]
      rfl
    · rw [Counted,hzero rfl rfl,hzero rfl rfl,←hp]
      exact ⟨rfl,rfl⟩
    · intro task
      rw [hhist,hzero rfl rfl,←hp]
      exact Nat.zero_le _
    · rintro task (hm | hm)
      · rw [←hp] at hm
        exact absurd hm List.not_mem_nil
      · exact (hnot hm nofun nofun).elim
    · refine ⟨fun hm => (hnot hm nofun nofun).elim,?_,fun _ hm => (hnot hm nofun nofun).elim,?_⟩
      · rintro (hc | hm)
        · rw [←hp,hq] at hc
          cases hc
        · exact (hnot hm nofun nofun).elim
      · rw [←hp]
        exact nofun

/-- Every reached pool is sound, over a queue that its machine reaches. -/
theorem reaches_sound (h : (WorkerPool.machine capacity).Reaches p) : Sound p :=
  h.invariant (P := Sound) (fun _ ⟨_,_,hp⟩ => make_sound hp)
    (fun _ _ _ hp hs => hp.step (step_effect hp.fits hs))

/-- The tasks accepted so far, in the order of their acceptance. -/
def acceptedTasks (p : ThreadPool) : List Task := pushedItems p.tasks.history

/-- The tasks taken by workers so far, in the order in which they were taken. -/
def takenTasks (p : ThreadPool) : List Task := poppedItems p.tasks.history

/-- A worker that is still in its loop. -/
def inLoop (stage : Stage) : Bool := works stage && decide (stage≠.exited)

/-- What the pool promises. -/
structure RunsOnce (p : ThreadPool) : Prop where
  /-- Workers take the tasks in the order of their acceptance. -/
  in_order : takenTasks p<+:acceptedTasks p
  /-- Whose `submit` returned false or threw never runs. -/
  refused_never_ran : ∀ task reply, (task,reply)∈p.replies → reply≠.accepted → task∉p.ran
  /-- Before a shutdown begins every worker is in its loop. -/
  all_working : p.stopping=false → ∀ worker, worker < p.workerCount →
    ∃ stage, p.stages[worker]?=some stage ∧ inLoop stage=true
  /-- When the first shutdown has returned, every accepted task has run, once. -/
  ran_once : p.joined=true → ∀ task, (task,.accepted)∈p.replies → p.ran.count task=1
  ran_all : p.joined=true → p.ran.Perm (acceptedTasks p) ∧ takenTasks p=acceptedTasks p
  all_counted : p.joined=true → p.completed+p.failed=(acceptedTasks p).length ∧ p.active=0

/-- When the first shutdown has returned nobody holds, owes or does anything. -/
theorem Sound.joined_idle (h : Sound p) (hj : p.joined=true) {w : Stage → ℕ} (hx : w .exited=0)
    (hw : ∀ stage, 0 < w stage → works stage=true) : weigh w p.stages=0 := by
  refine weigh_zero (fun stage hm => ?_)
  by_contra hn
  obtain ⟨thread,hs⟩ := List.getElem?_of_mem hm
  have hlt := (h.manned.first thread stage hs).mp (hw stage (Nat.pos_of_ne_zero hn))
  have he := h.closed.joined hj thread hlt
  rw [Option.some.inj (hs.symm.trans he)] at hn
  exact hn hx

/-- In every run of any number of workers, submitters and shutdowns, accepted
work runs exactly once. -/
theorem reaches_runsOnce (h : (WorkerPool.machine capacity).Reaches p) : RunsOnce p := by
  have hs := reaches_sound h
  obtain ⟨hfifo,_,_,_⟩ := reaches_fifo (reaches_queue h)
  have honce : ∀ task, (acceptedTasks p).count task≤1 := by
    intro task
    have hl := hs.ledger task
    rw [acceptedTasks]
    split at hl <;> omega
  have hran : ∀ task, p.ran.count task≤(acceptedTasks p).count task := by
    intro task
    have hh := hs.held task
    rw [acceptedTasks,hfifo,List.count_append]
    omega
  have hjoined : p.joined=true → p.ran.Perm (acceptedTasks p) ∧ takenTasks p=acceptedTasks p := by
    intro hj
    have hleft := hs.closed.left
      (List.mem_of_getElem? (hs.closed.joined hj 0 hs.manned.positive))
    have htaken : takenTasks p=acceptedTasks p := by
      rw [acceptedTasks,hfifo,hleft.2,List.append_nil,takenTasks]
    refine ⟨List.perm_iff_count.mpr (fun task => ?_),htaken⟩
    have hh := hs.held task
    have hz : weigh (holds task) p.stages=0 := by
      refine hs.joined_idle hj rfl (fun stage hw => ?_)
      cases stage <;> first | rfl | exact absurd hw (Nat.lt_irrefl 0)
    rw [←htaken,takenTasks]
    omega
  refine ⟨⟨_,hfifo.symm⟩,?_,?_,?_,hjoined,?_⟩
  · intro task reply hm hr hin
    have hl := hs.ledger task
    have hc := hran task
    have hpos : 0 < p.ran.count task := List.count_pos_iff.mpr hin
    have href : 0 < refusals task p.replies :=
      List.countP_pos_iff.mpr ⟨_,hm,decide_eq_true ⟨rfl,hr⟩⟩
    rw [acceptedTasks] at hc
    split at hl <;> omega
  · intro hstop worker hlt
    have hget := List.getElem?_eq_getElem (hlt.trans_le hs.manned.enough)
    refine ⟨_,hget,?_⟩
    rw [inLoop,(hs.manned.first worker _ hget).mpr hlt,Bool.true_and,decide_eq_true_eq]
    intro hx
    have hc := (hs.closed.left (hx ▸ List.mem_of_getElem? hget)).1
    rw [hs.closed.stopped (Or.inl hc)] at hstop
    exact absurd hstop (by simp only [reduceCtorEq,not_false_eq_true])
  · intro hj task hm
    have hmem := hs.told task (Or.inl hm)
    have hpos := List.count_pos_iff.mpr hmem
    have hle := honce task
    rw [(hjoined hj).1.count_eq]
    rw [acceptedTasks] at hle ⊢
    omega
  · intro hj
    obtain ⟨hc,ha⟩ := hs.counted
    have howes : weigh owes p.stages=0 := by
      refine hs.joined_idle hj rfl (fun stage hw => ?_)
      cases stage <;> first | rfl | exact absurd hw (Nat.lt_irrefl 0)
    have hbusy : weigh busy p.stages=0 := by
      refine hs.joined_idle hj rfl (fun stage hw => ?_)
      cases stage <;> first | rfl | exact absurd hw (Nat.lt_irrefl 0)
    rw [←(hjoined hj).1.length_eq]
    omega

/-- One worker and two callers: a task that throws, and one handed in too
late. -/
def drainRun : List Action :=
  [.fetch 0,.submit 1 .plain,.push 1,.inside (.notify 1 (some 0)),.acknowledge 1,
    .inside (.resume 0),.inside (.notify 0 none),.activate 0,.submit 2 .packaged,.stop 1,
    .run 0 true,.close 1,.push 2,.inside (.broadcast 1),.inside (.broadcast 1),.count 0,
    .deactivate 0,.fetch 0,.join 1,.join 1]

theorem drainRun_replays :
    ((WorkerPool.make 1 1 2).bind (Machine.replay (ThreadPool.step 1) (fun _ _ => true)
      drainRun)).isSome=true := by
  decide +kernel

/-- The accepted task has run and failed, the late one has not run. -/
theorem drainRun_runsOnce : ∃ p : ThreadPool, (WorkerPool.machine 1).Reaches p ∧ p.joined=true ∧
    p.failed=1 ∧ p.replies=[(⟨0,.plain⟩,.accepted),(⟨1,.packaged⟩,(⟨1,.packaged⟩ : Task).refusal)] ∧
      RunsOnce p := by
  obtain ⟨start,hs,hr⟩ := Option.bind_eq_some_iff.mp (Option.some_get drainRun_replays).symm
  have hr := (Machine.Reaches.replay (m := WorkerPool.machine 1) (fun _ _ _ h => h) drainRun
    (.start ⟨1,2,hs⟩) hr).of_guarded
  exact ⟨_,hr,by decide +kernel,by decide +kernel,by decide +kernel,reaches_runsOnce hr⟩

end CudaForge.PoolDrain
