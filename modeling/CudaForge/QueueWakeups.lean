import CudaForge.QueueOrder

/-!
# No wakeup of the blocking queue is lost

For each condition variable the queue holds a stock of what its waiters wait
for: items for the consumers, free slots for the producers. While anybody is
parked there, the stock is covered by the notifications to come and the woken
threads that do not hold the mutex yet, unless the closing broadcast is still
to come.
-/

namespace CudaForge.QueueWakeups

open ConcurrentQueue QueueOrder ThreadPools TransitionRuns

variable {α : Type}

/-- How much there is of what a condition variable's waiters wait for. -/
def stock (capacity : ℕ) (g : Guarded α) : Condition → ℕ
  | .notEmpty => g.buffer.length
  | .notFull => capacity-g.buffer.length

/-- What a successful operation uses up. -/
def uses : Operation α → Condition
  | .push _ => .notFull
  | .tryPush _ => .notFull
  | .pop => .notEmpty
  | .popFor => .notEmpty
  | .tryPop => .notEmpty

/-- One when the two condition variables are the same. -/
def same (a b : Condition) : ℕ := if a=b then 1 else 0

/-- Somebody parked on the condition variable is sure to be woken. -/
def Awake (capacity : ℕ) (q : Queue α) (condition : Condition) : Prop :=
  tally (Phase.parkedOn condition) q.threads=0 ∨
    0 < tally (Phase.willBroadcast condition) q.threads ∨
    q.guarded.closed=false ∧ stock capacity q.guarded condition≤
      tally (Phase.willNotify condition) q.threads+tally (Phase.wokenOn condition) q.threads

variable {capacity : ℕ} {g : Guarded α} {q q' : Queue α} {operation : Operation α}
  {condition : Condition}

/-- An operation waits for what it uses. -/
theorem uses_of_waitsOn (h : operation.waitsOn=some condition) : uses operation=condition := by
  cases operation <;> first | exact Option.some.inj h | cases h

/-- A push moves a free slot to the items. -/
theorem stock_accept (value : α) (hl : g.buffer.length < capacity) (condition : Condition) :
    stock capacity (g.accept value).after condition+same .notFull condition=
      stock capacity g condition+same .notEmpty condition := by
  cases condition with
  | notEmpty =>
    have hb : (g.accept value).after.buffer.length=g.buffer.length+1 := List.length_append
    simp only [stock,hb,same,reduceCtorEq,if_false,if_true]
  | notFull =>
    have hb : (g.accept value).after.buffer.length=g.buffer.length+1 := List.length_append
    simp only [stock,hb,same,reduceCtorEq,if_false,if_true]
    omega

/-- A pop moves an item to the free slots. -/
theorem stock_take {value : α} {rest : List α} (hb : g.buffer=value::rest)
    (hf : g.buffer.length≤capacity) (condition : Condition) :
    stock capacity {g with buffer := rest} condition+same .notEmpty condition=
      stock capacity g condition+same .notFull condition := by
  rw [hb,List.length_cons] at hf
  cases condition with
  | notEmpty =>
    simp only [stock,hb,List.length_cons,same,reduceCtorEq,if_false,if_true]
  | notFull =>
    simp only [stock,hb,List.length_cons,same,reduceCtorEq,if_false,if_true]
    omega

/-- A successful operation turns what it uses into what it notifies of. Any
other leaves the queue alone, and none that waits is refused for anything but
a closed queue or an empty stock. -/
def Trades (capacity : ℕ) (g : Guarded α) (operation : Operation α) (answer : Answer α) : Prop :=
  answer.after.closed=g.closed ∧
    (answer.status=.ok ∧ (∀ condition,
        stock capacity answer.after condition+same (uses operation) condition=
          stock capacity g condition+same operation.notifies condition) ∨
      answer.status≠.ok ∧ answer.after=g ∧ ∀ condition, operation.waitsOn=some condition →
        g.closed=false → stock capacity g condition=0)

/-- A refusal leaves the queue alone. -/
theorem refuse_trades {status : QueueStatus} (hs : status≠.ok)
    (h : ∀ condition, operation.waitsOn=some condition →
      g.closed=false → stock capacity g condition=0) :
    Trades capacity g operation (g.refuse status) :=
  ⟨rfl,Or.inr ⟨hs,rfl,h⟩⟩

/-- The shared end of the three pops. -/
theorem take_trades {status : QueueStatus} (hf : g.buffer.length≤capacity) (hs : status≠.ok)
    (hu : uses operation=.notEmpty) (hn : operation.notifies=.notFull)
    (hw : ∀ condition, operation.waitsOn=some condition → condition=.notEmpty) :
    Trades capacity g operation (g.take status) := by
  cases hb : g.buffer with
  | nil =>
    rw [take_nil hb]
    refine refuse_trades hs (fun condition hc _ => ?_)
    rw [hw condition hc,stock,hb,List.length_nil]
  | cons value rest =>
    rw [take_cons hb]
    refine ⟨rfl,Or.inl ⟨rfl,?_⟩⟩
    rw [hu,hn]
    exact stock_take hb hf

/-- Every decided operation trades. -/
theorem attempt_trades {expired : Bool} {answer : Answer α} (hf : g.buffer.length≤capacity)
    (h : g.attempt capacity expired operation=some answer) :
    Trades capacity g operation answer := by
  cases operation with
  | push value =>
    rcases push_eq h with ⟨hc,rfl⟩ | ⟨_,hl,rfl⟩
    · exact refuse_trades QueueStatus.noConfusion (fun _ _ ho => absurd (hc.symm.trans ho)
        Bool.noConfusion)
    · exact ⟨rfl,Or.inl ⟨rfl,stock_accept value hl⟩⟩
  | tryPush value =>
    rw [←Option.some.inj h]
    rcases tryPush_eq capacity g value with ⟨_,he⟩ | ⟨_,_,he⟩ | ⟨_,hl,he⟩
    · rw [he]
      exact refuse_trades QueueStatus.noConfusion (by intros; contradiction)
    · rw [he]
      exact refuse_trades QueueStatus.noConfusion (by intros; contradiction)
    · rw [he]
      exact ⟨rfl,Or.inl ⟨rfl,stock_accept value hl⟩⟩
  | pop =>
    rw [(pop_eq h).1]
    exact take_trades hf QueueStatus.noConfusion rfl rfl (fun _ hc => (Option.some.inj hc).symm)
  | popFor =>
    rcases popFor_eq h with ⟨rfl,_⟩ | ⟨rfl,hb,_⟩
    · exact take_trades hf QueueStatus.noConfusion rfl rfl (fun _ hc => (Option.some.inj hc).symm)
    · refine refuse_trades QueueStatus.noConfusion (fun condition hc _ => ?_)
      rw [←Option.some.inj hc,stock,hb,List.length_nil]
  | tryPop =>
    rw [←Option.some.inj h,Guarded.tryPop]
    refine take_trades hf ?_ rfl rfl (by intros; contradiction)
    cases g.closed <;> exact QueueStatus.noConfusion

/-- A thread waits only while the queue is open and there is nothing of what
it waits for. -/
theorem attempt_waits {expired : Bool} (h : g.attempt capacity expired operation=none) :
    ∃ condition, operation.waitsOn=some condition ∧ g.closed=false ∧
      stock capacity g condition=0 := by
  have hpop : g.mayPop≠true → g.closed=false ∧ stock capacity g .notEmpty=0 := by
    intro hm
    have hn := not_or.mp (fun ho => hm (mayPop_iff.mpr ho))
    refine ⟨Bool.eq_false_iff.mpr hn.1,?_⟩
    rw [stock,not_not.mp hn.2,List.length_nil]
  cases operation with
  | push value =>
    by_cases hp : g.mayPush capacity=true
    · exact absurd ((if_pos hp).symm.trans h) (Option.some_ne_none _)
    · have hn := not_or.mp (fun ho => hp (mayPush_iff.mpr ho))
      exact ⟨.notFull,rfl,Bool.eq_false_iff.mpr hn.1,Nat.sub_eq_zero_of_le (Nat.le_of_not_lt hn.2)⟩
  | tryPush value => cases h
  | pop =>
    by_cases hm : g.mayPop=true
    · exact absurd ((if_pos hm).symm.trans h) (Option.some_ne_none _)
    · exact ⟨.notEmpty,rfl,hpop hm⟩
  | popFor =>
    by_cases hm : g.mayPop=true
    · exact absurd ((if_pos hm).symm.trans h) (Option.some_ne_none _)
    · exact ⟨.notEmpty,rfl,hpop hm⟩
  | tryPop => cases h

/-- A move that gives up no broadcast, parks nobody and covers what it adds to
the stock keeps the waiters awake. -/
theorem Awake.moved {thread : ℕ} {old new : Phase α} (h : Awake capacity q condition)
    (ht : q.threads[thread]?=some old) (hq : q'.threads=q.threads.set thread new)
    (hc : q'.guarded.closed=q.guarded.closed)
    (hp : share (Phase.parkedOn condition) new ≤ share (Phase.parkedOn condition) old)
    (hb : share (Phase.willBroadcast condition) old ≤ share (Phase.willBroadcast condition) new)
    (hs : stock capacity q'.guarded condition+share (Phase.willNotify condition) old+
        share (Phase.wokenOn condition) old≤
      stock capacity q.guarded condition+share (Phase.willNotify condition) new+
        share (Phase.wokenOn condition) new) : Awake capacity q' condition := by
  have h1 := tally_set (Phase.parkedOn condition) new ht
  have h2 := tally_set (Phase.willBroadcast condition) new ht
  have h3 := tally_set (Phase.willNotify condition) new ht
  have h4 := tally_set (Phase.wokenOn condition) new ht
  rw [Awake,hq,hc]
  rcases h with h | h | ⟨ho,h⟩
  · exact Or.inl (by omega)
  · exact Or.inr (Or.inl (by omega))
  · exact Or.inr (Or.inr ⟨ho,by omega⟩)

/-- What a parked thread counts for. -/
theorem share_parked (operation : Operation α) :
    share (Phase.parkedOn condition) (.parked operation)=
      if operation.waitsOn=some condition then 1 else 0 := by
  simp only [share,Phase.parkedOn,beq_iff_eq]

/-- What a woken thread counts for. -/
theorem share_woken (operation : Operation α) (expired : Bool) :
    share (Phase.wokenOn condition) (.woken operation expired)=
      if operation.waitsOn=some condition then 1 else 0 := by
  simp only [share,Phase.wokenOn,beq_iff_eq]

/-- What a thread about to notify counts for. -/
theorem share_notifying (other : Condition) :
    share (Phase.willNotify (α := α) condition) (.notifying other)=same other condition := by
  simp only [share,Phase.willNotify,beq_iff_eq,same]

/-- A thread that enters its section counts at most for what it may use. -/
theorem share_enters {phase : Phase α} {expired : Bool} (condition : Condition)
    (h : Enters phase operation expired) :
    share (Phase.parkedOn condition) phase=0 ∧ share (Phase.willBroadcast condition) phase=0 ∧
      share (Phase.willNotify condition) phase=0 ∧
      (share (Phase.wokenOn condition) phase=0 ∨
        share (Phase.wokenOn condition) phase=1 ∧ operation.waitsOn=some condition) := by
  rcases h with ⟨rfl,_⟩ | rfl
  · exact ⟨rfl,rfl,rfl,Or.inl rfl⟩
  · refine ⟨rfl,rfl,rfl,?_⟩
    rw [share_woken]
    by_cases hw : operation.waitsOn=some condition
    · exact Or.inr ⟨if_pos hw,hw⟩
    · exact Or.inl (if_neg hw)

/-- A decided operation keeps the waiters awake. -/
theorem Awake.answered {thread : ℕ} {phase : Phase α} {expired : Bool} {answer : Answer α}
    (h : Awake capacity q condition) (hf : q.guarded.buffer.length≤capacity)
    (ht : q.threads[thread]?=some phase) (he : Enters phase operation expired)
    (ha : q.guarded.attempt capacity expired operation=some answer)
    (hq : q'.threads=q.threads.set thread (afterAnswer operation answer.status))
    (hg : q'.guarded=answer.after) : Awake capacity q' condition := by
  obtain ⟨hc,htrade⟩ := attempt_trades hf ha
  obtain ⟨hp,hb,hn,hw⟩ := share_enters condition he
  rw [←hg] at hc htrade
  rcases htrade with ⟨hs,hst⟩ | ⟨hs,hst,hz⟩
  · -- The item or slot it used had a woken thread behind it at most once.
    rw [hs,afterAnswer,if_pos rfl] at hq
    have hstock := hst condition
    refine h.moved ht hq hc (Nat.zero_le _) (by omega) ?_
    rw [share_notifying,hn]
    have hwn : share (Phase.wokenOn condition) (.notifying operation.notifies : Phase α)=0 := rfl
    rcases hw with hw | ⟨hw,hwait⟩
    · omega
    · rw [uses_of_waitsOn hwait,same,if_pos rfl] at hstock
      omega
  · rw [afterAnswer,if_neg hs] at hq
    rcases hw with hw | ⟨hw,hwait⟩
    · refine h.moved ht hq hc (Nat.zero_le _) (by omega) ?_
      rw [hst,hn,hw]
      exact Nat.le_add_right _ _
    · -- Refused after a wait: closed, so the broadcast is to come or came, or
      -- the stock is empty.
      cases ho : q.guarded.closed with
      | false =>
        refine Or.inr (Or.inr ⟨hc.trans ho,?_⟩)
        rw [hst,hz condition hwait ho]
        exact Nat.zero_le _
      | true =>
        have h1 := tally_set (Phase.parkedOn condition) .idle ht
        have h2 := tally_set (Phase.willBroadcast condition) .idle ht
        rw [Awake,hq]
        rcases h with h | h | ⟨hf,_⟩
        · refine Or.inl ?_
          have hi : share (Phase.parkedOn condition) (.idle : Phase α)=0 := rfl
          omega
        · exact Or.inr (Or.inl (by omega))
        · exact absurd (ho.symm.trans hf) Bool.noConfusion

/-- A notification takes one thread from the parked to the woken and is
spent. -/
theorem notified_tallies {thread chosen : ℕ} {other : Condition} (condition : Condition)
    (ht : q.threads[thread]?=some (.notifying other))
    (hc : q.threads[chosen]?=some (.parked operation)) (hw : operation.waitsOn=some other)
    {threads : List (Phase α)}
    (hq : threads=(q.threads.set thread .idle).set chosen (.woken operation false)) :
    tally (Phase.parkedOn condition) threads+same other condition=
        tally (Phase.parkedOn condition) q.threads ∧
      tally (Phase.willBroadcast condition) threads=
        tally (Phase.willBroadcast condition) q.threads ∧
      tally (Phase.willNotify condition) threads+same other condition=
        tally (Phase.willNotify condition) q.threads ∧
      tally (Phase.wokenOn condition) threads=
        tally (Phase.wokenOn condition) q.threads+same other condition := by
  have hne : thread≠chosen := by
    rintro rfl
    cases ht.symm.trans hc
  have hc' : (q.threads.set thread .idle)[chosen]?=some (.parked operation) :=
    (getElem?_move hne).trans hc
  have h1 := tally_set (Phase.parkedOn condition) .idle ht
  have h2 := tally_set (Phase.willBroadcast condition) .idle ht
  have h3 := tally_set (Phase.willNotify condition) .idle ht
  have h4 := tally_set (Phase.wokenOn condition) .idle ht
  have k1 := tally_set (Phase.parkedOn condition) (.woken operation false) hc'
  have k2 := tally_set (Phase.willBroadcast condition) (.woken operation false) hc'
  have k3 := tally_set (Phase.willNotify condition) (.woken operation false) hc'
  have k4 := tally_set (Phase.wokenOn condition) (.woken operation false) hc'
  simp only [share,Phase.parkedOn,Phase.willBroadcast,Phase.willNotify,Phase.wokenOn,
    Bool.false_eq_true,if_false,hw,beq_iff_eq,Option.some.injEq,Nat.add_zero]
    at h1 h2 h3 h4 k1 k2 k3 k4
  rw [hq,same]
  by_cases he : other=condition
  · rw [if_pos he] at h3 k1 k4 ⊢
    omega
  · rw [if_neg he] at h3 k1 k4 ⊢
    omega

/-- A notification keeps the waiters awake. -/
theorem Awake.notified {thread chosen : ℕ} {other : Condition} (h : Awake capacity q condition)
    (ht : q.threads[thread]?=some (.notifying other))
    (hc : q.threads[chosen]?=some (.parked operation)) (hw : operation.waitsOn=some other) :
    Awake capacity ((q.move thread .idle).move chosen (.woken operation false)) condition := by
  obtain ⟨h1,h2,h3,h4⟩ := notified_tallies condition ht hc hw rfl
  rw [Awake]
  simp only [Queue.move]
  rcases h with h | h | ⟨ho,h⟩
  · exact Or.inl (by omega)
  · exact Or.inr (Or.inl (by omega))
  · -- The notification it spent is the thread it woke.
    exact Or.inr (Or.inr ⟨ho,by omega⟩)

/-- A broadcast changes nothing for the other condition variable. -/
theorem roused_elsewhere {other : Condition} (h : other≠condition) (phase : Phase α) :
    Phase.parkedOn condition (phase.roused other)=Phase.parkedOn condition phase ∧
      Phase.willBroadcast condition (phase.roused other)=Phase.willBroadcast condition phase ∧
      Phase.willNotify condition (phase.roused other)=Phase.willNotify condition phase ∧
      Phase.wokenOn condition (phase.roused other)=Phase.wokenOn condition phase := by
  cases phase with
  | parked operation =>
    by_cases hw : operation.waitsOn=some other
    · have hb : (operation.waitsOn==some other)=true := beq_iff_eq.mpr hw
      have hn : (operation.waitsOn==some condition)=false :=
        beq_false_of_ne (fun hs => h (Option.some.inj (hw.symm.trans hs)))
      simp only [Phase.roused,hb,if_true,Phase.parkedOn,Phase.wokenOn,hn,Phase.willBroadcast,
        Phase.willNotify,and_self]
    · have hb : (operation.waitsOn==some other)=false := beq_false_of_ne hw
      simp only [Phase.roused,hb,Bool.false_eq_true,if_false,and_self]
  | idle => exact ⟨rfl,rfl,rfl,rfl⟩
  | woken => exact ⟨rfl,rfl,rfl,rfl⟩
  | notifying => exact ⟨rfl,rfl,rfl,rfl⟩
  | broadcasting => exact ⟨rfl,rfl,rfl,rfl⟩

/-- A broadcast leaves its condition variable with nobody parked, and the other
one as it was. -/
theorem Awake.broadcasted {thread : ℕ} {other : Condition} {rest : List Condition}
    (h : Awake capacity q condition)
    (ht : q.threads[thread]?=some (.broadcasting (other::rest))) :
    Awake capacity ({q with threads := q.threads.map (Phase.roused other)}.move thread
      (if rest=[] then .idle else .broadcasting rest)) condition := by
  have hm : (q.threads.map (Phase.roused other))[thread]?=
      some (.broadcasting (other::rest)) := by
    rw [List.getElem?_map,ht]
    rfl
  have hnext : ∀ (p : Phase α → Bool), p .idle=false → p (.broadcasting [])=false →
      share p (if rest=[] then .idle else .broadcasting rest)=share p (.broadcasting rest) := by
    intro p hi hb
    by_cases hr : rest=[]
    · rw [if_pos hr,hr,share_neg hi,share_neg hb]
    · rw [if_neg hr]
  by_cases he : other=condition
  · have hz : tally (Phase.parkedOn condition) (q.threads.map (Phase.roused other))=0 := by
      refine tally_map_zero _ (fun phase => ?_)
      cases phase with
      | parked operation =>
        rw [Phase.roused]
        split
        · rfl
        · next hw =>
          rw [←he]
          exact Bool.eq_false_iff.mpr hw
      | idle => rfl
      | woken => rfl
      | notifying => rfl
      | broadcasting => rfl
    have h1 := tally_set (Phase.parkedOn condition)
      (if rest=[] then .idle else .broadcasting rest) hm
    rw [hnext _ rfl rfl] at h1
    refine Or.inl ?_
    have hs : share (Phase.parkedOn condition) (.broadcasting rest : Phase α)=0 := rfl
    have ho : share (Phase.parkedOn condition) (.broadcasting (other::rest) : Phase α)=0 := rfl
    simp only [Queue.move]
    omega
  · have h1 := tally_map_same q.threads _ (fun phase => (roused_elsewhere he phase).1)
    have h2 := tally_map_same q.threads _ (fun phase => (roused_elsewhere he phase).2.1)
    have h3 := tally_map_same q.threads _
      (fun phase => (roused_elsewhere he phase).2.2.1)
    have h4 := tally_map_same q.threads _
      (fun phase => (roused_elsewhere he phase).2.2.2)
    have hr : Awake capacity {q with threads := q.threads.map (Phase.roused other)} condition := by
      rw [Awake,h1,h2,h3,h4]
      exact h
    have hb : share (Phase.willBroadcast condition) (.broadcasting (other::rest) : Phase α)=
        share (Phase.willBroadcast condition) (.broadcasting rest : Phase α) := by
      have hc : (condition==other)=false := beq_false_of_ne (fun hs => he hs.symm)
      have hl : (other::rest).contains condition=rest.contains condition := by
        rw [List.contains_cons,hc,Bool.false_or]
      rw [share,share,Phase.willBroadcast,Phase.willBroadcast,hl]
    refine hr.moved hm rfl rfl ?_ ?_ ?_
    · rw [hnext _ rfl rfl]
      exact Nat.zero_le _
    · rw [hnext _ rfl rfl]
      exact hb.le
    · rw [hnext _ rfl rfl,hnext _ rfl rfl]
      exact le_rfl

/-- Every step keeps the waiters awake. -/
theorem Awake.effect (h : Awake capacity q condition) (hf : q.guarded.buffer.length≤capacity)
    (he : Effect capacity q q') : Awake capacity q' condition := by
  cases he with
  | @waits thread phase operation expired ht he hn =>
    obtain ⟨other,hw,ho,hz⟩ := attempt_waits hn
    by_cases hc : other=condition
    · refine Or.inr (Or.inr ⟨ho,?_⟩)
      rw [←hc]
      exact hz ▸ Nat.zero_le _
    · obtain ⟨hp,hb,hno,hwo⟩ := share_enters condition he
      have hne : operation.waitsOn≠some condition := fun hs =>
        hc (Option.some.inj (hw.symm.trans hs))
      have hs : share (Phase.parkedOn condition) (.parked operation)=0 := by
        rw [share_parked,if_neg hne]
      have hz := hwo.resolve_right (fun hs => hne hs.2)
      exact h.moved ht rfl rfl (by omega) (by omega) (by simp only [Queue.move]; omega)
  | answers ht he ha => exact h.answered hf ht he ha rfl rfl
  | @wakes thread operation expired ht =>
    refine h.moved ht rfl rfl (Nat.zero_le _) (Nat.zero_le _) ?_
    exact Nat.add_le_add_left (Nat.zero_le _) _
  | @expires thread operation ht =>
    exact h.moved ht rfl rfl (Nat.zero_le _) (Nat.zero_le _) le_rfl
  | @misses thread other ht hn =>
    by_cases he : other=condition
    · have h1 := tally_set (Phase.parkedOn condition) .idle ht
      rw [←he] at h1 ⊢
      have hi : share (Phase.parkedOn other) (.idle : Phase α)=0 := rfl
      exact Or.inl (by simp only [Queue.move]; omega)
    · refine h.moved ht rfl rfl (Nat.zero_le _) (Nat.zero_le _) ?_
      rw [share_notifying,same,if_neg he]
      exact le_rfl
  | notifies ht hc hw => exact h.notified ht hc hw
  | repeats => exact h
  | @closes thread ht hc =>
    have hl : thread < q.threads.length := (List.getElem?_eq_some_iff.mp ht).1
    refine Or.inr (Or.inl (tally_pos (List.getElem?_set_self hl) ?_))
    cases condition <;> rfl
  | broadcasts ht => exact h.broadcasted ht

/-- In a new queue nobody is parked. -/
theorem make_awake {threads : ℕ} (h : make capacity threads=some q) (condition : Condition) :
    Awake capacity q condition := by
  rw [(make_eq h).2]
  exact Or.inl (tally_replicate threads rfl)

/-- Order and wakeups hold together in every run. -/
theorem reaches_awake (h : (machine α capacity).Reaches q) :
    Ordered capacity q ∧ ∀ condition, Awake capacity q condition :=
  h.invariant (P := fun q => Ordered capacity q ∧ ∀ condition, Awake capacity q condition)
    (fun _ ⟨_,hs⟩ => ⟨make_ordered hs,make_awake hs⟩)
    (fun _ _ _ hq hs => ⟨hq.1.effect (step_effect hs),
      fun condition => (hq.2 condition).effect hq.1.1.fits (step_effect hs)⟩)

/-- The thread will notify somebody on the condition variable, or was itself
woken from it and does not hold the mutex yet. -/
def Pending (condition : Condition) (phase : Phase α) : Prop :=
  phase.willNotify condition=true ∨ phase.willBroadcast condition=true ∨
    phase.wokenOn condition=true

/-- Some thread is parked on the condition variable. -/
def Waited (q : Queue α) (condition : Condition) : Prop :=
  ∃ phase∈q.threads, phase.parkedOn condition=true

/-- Where somebody waits and there is something to be had, a wakeup is
pending. -/
theorem Awake.pending (h : Awake capacity q condition) (hw : Waited q condition)
    (hs : 0 < stock capacity q.guarded condition) : ∃ phase∈q.threads, Pending condition phase := by
  rcases h with h | h | ⟨_,h⟩
  · obtain ⟨phase,hm,hp⟩ := hw
    exact absurd ((tally_zero.mp h phase hm).symm.trans hp) Bool.noConfusion
  · obtain ⟨phase,hm,hp⟩ := exists_of_tally h
    exact ⟨phase,hm,Or.inr (Or.inl hp)⟩
  · by_cases hn : 0 < tally (Phase.willNotify condition) q.threads
    · obtain ⟨phase,hm,hp⟩ := exists_of_tally hn
      exact ⟨phase,hm,Or.inl hp⟩
    · have hwoken : 0 < tally (Phase.wokenOn condition) q.threads := by omega
      obtain ⟨phase,hm,hp⟩ := exists_of_tally hwoken
      exact ⟨phase,hm,Or.inr (Or.inr hp)⟩

/-- Once a closed queue has no broadcast to come, nobody is parked. -/
theorem Awake.cleared (h : Awake capacity q condition) (hc : q.guarded.closed=true)
    (hb : ∀ phase∈q.threads, phase.willBroadcast condition=false) : ¬Waited q condition := by
  rintro ⟨phase,hm,hp⟩
  rcases h with h | h | ⟨ho,_⟩
  · exact absurd ((tally_zero.mp h phase hm).symm.trans hp) Bool.noConfusion
  · exact absurd (tally_zero.mpr hb) (Nat.ne_of_gt h)
  · exact absurd (hc.symm.trans ho) Bool.noConfusion

/-- No wakeup is lost, in any run of any number of threads: a consumer is
parked beside an item, or a producer beside a free slot, only while a wakeup
is pending, and nobody stays parked behind the broadcasts of a shutdown. -/
theorem reaches_no_lost_wakeup (h : (machine α capacity).Reaches q) :
    (q.guarded.buffer≠[] → Waited q .notEmpty → ∃ phase∈q.threads, Pending .notEmpty phase) ∧
      (q.guarded.buffer.length < capacity → Waited q .notFull →
        ∃ phase∈q.threads, Pending .notFull phase) ∧
      ∀ condition, q.guarded.closed=true →
        (∀ phase∈q.threads, phase.willBroadcast condition=false) → ¬Waited q condition := by
  have ha := (reaches_awake h).2
  refine ⟨fun hb hw => ?_,fun hb hw => ?_,fun condition hc hb => (ha condition).cleared hc hb⟩
  · exact (ha .notEmpty).pending hw (List.length_pos_iff.mpr hb)
  · exact (ha .notFull).pending hw (Nat.sub_pos_of_lt hb)

/-- A consumer waits, an item is pushed, and its notification is to come. -/
def parkedConsumer : List (Action ℕ) := [.call 0 .pop,.call 1 (.push 7)]

theorem parkedConsumer_pending : ∃ q : Queue ℕ, (machine ℕ 1).Reaches q ∧
    q.guarded.buffer=[7] ∧ ∃ phase∈q.threads, Pending .notEmpty phase := by
  obtain ⟨q,hr,hb,hw⟩ := Machine.Reaches.replayed (m := machine ℕ 1)
    (P := fun q => q.guarded.buffer=[7] ∧ ∃ phase∈q.threads, phase.parkedOn .notEmpty=true)
    (fun _ _ => true) (fun _ _ _ h => h) parkedConsumer
    (.start (s := {threads := List.replicate 2 .idle}) ⟨2,rfl⟩) (by decide +kernel)
  have hne : q.guarded.buffer≠[] := hb ▸ List.cons_ne_nil 7 []
  exact ⟨q,hr.of_guarded,hb,(reaches_no_lost_wakeup hr.of_guarded).1 hne hw⟩

end CudaForge.QueueWakeups
