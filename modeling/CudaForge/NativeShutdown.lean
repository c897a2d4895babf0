import CudaForge.NativeBatcher

/-!
# The native shutdown loses nothing

Every request the queue accepted is in the queue, in the batch being formed,
or in the log, in the order of acceptance. The worker returns only from a
closed and empty queue, and the first shutdown only after the worker, so by
then the log has everything that was accepted.
-/

namespace CudaForge.NativeShutdown

open ConcurrentQueue NativeBatcher TransitionRuns

/-- What the worker decided about a request it took from the queue. -/
structure Decision where
  /-- The request as it was accepted. -/
  entry : Entry
  /-- When the worker took it. -/
  taken : ℤ
  /-- It was kept for the batch; otherwise it was dropped. -/
  live : Bool

/-- The request with the time at which it was taken. -/
def Decision.stamped (d : Decision) : Entry := d.entry.stamp d.taken

/-- What was kept, in order. -/
def kept (round : List Decision) : List Entry :=
  (round.filter (fun d => d.live)).map Decision.stamped

/-- What was dropped, in order. -/
def lapsed (round : List Decision) : List Entry :=
  (round.filter (fun d => !d.live)).map Decision.stamped

/-- What one call of `collect_batch` and the handler leave in the log: the
drops on the way, and the batch if there is one. -/
def render (round : List Decision) : List Outcome :=
  (lapsed round).map .dropped++(if kept round=[] then [] else [.delivered (kept round)])

/-- The tickets an outcome settles. -/
def settles : Outcome → List ℕ
  | .delivered batch => batch.map Entry.ticket
  | .dropped entry => [entry.ticket]

/-- The tickets a log settles, once for every batch they are delivered in and
every time they are dropped. -/
def settled (log : List Outcome) : List ℕ := log.flatMap settles

/-- The batch the worker holds. -/
def batchOf : Worker → List Entry
  | .filling batch _ => batch
  | .waiting batch _ => batch
  | .draining batch => batch
  | .collected batch _ => batch
  | .popping => []
  | .handling => []
  | .returned => []

/-- The queue is closed and drained. -/
def Dry (g : Guarded Entry) : Prop := g.closed=true ∧ g.buffer=[]

/-- A batch under way has a member, and an empty one means a drained queue. -/
def Sound (g : Guarded Entry) : Worker → Prop
  | .filling batch _ => batch≠[]
  | .waiting batch _ => batch≠[]
  | .draining batch => batch≠[]
  | .collected batch _ => batch=[] → Dry g
  | .returned => Dry g
  | .popping => True
  | .handling => True

/-- What a step of the worker does to the queue, the batch and the log. -/
inductive Worked (b : Batcher) : Batcher → Prop
  /-- It takes a request and drops it. -/
  | drops {entry : Entry} {rest : List Entry} {worker : Worker} (now : ℤ) (failed : ℕ)
      (hb : b.guarded.buffer=entry::rest) (hw : batchOf worker=batchOf b.worker)
      (hx : ∃ tested, (entry.stamp now).request.expired tested=true) :
      Worked b {b with
        guarded := {b.guarded with buffer := rest}
        worker := worker
        log := b.log++[.dropped (entry.stamp now)]
        failed := failed}
  /-- It takes a request for the batch. -/
  | keeps {entry : Entry} {rest : List Entry} {worker : Worker} (now : ℤ)
      (hb : b.guarded.buffer=entry::rest)
      (hw : batchOf worker=batchOf b.worker++[entry.stamp now]) :
      Worked b {b with guarded := {b.guarded with buffer := rest}, worker := worker}
  /-- It goes on with the batch it has. -/
  | moves {worker : Worker} (failed : ℕ) (hw : batchOf worker=batchOf b.worker) :
      Worked b {b with worker := worker, failed := failed}
  /-- It hands the batch to the handler. -/
  | delivers (hn : batchOf b.worker≠[]) :
      Worked b {b with log := b.log++[.delivered (batchOf b.worker)], worker := .handling}

variable {setup : Setup} {b b' : Batcher}

/-- A popped request is dropped or kept. -/
theorem take_worked {e : Env} {entry : Entry} {rest : List Entry} {dropped keeping : Worker}
    (hb : b.guarded.buffer=entry::rest) (hd : batchOf dropped=batchOf b.worker)
    (hk : batchOf keeping=batchOf b.worker++[entry.stamp e.now])
    (hsd : Sound {b.guarded with buffer := rest} dropped)
    (hsk : Sound {b.guarded with buffer := rest} keeping)
    (hb' : {b with guarded := {b.guarded with buffer := rest}}.take setup e entry dropped
      keeping=b') : Worked b b' ∧ Sound b'.guarded b'.worker := by
  rw [←hb',Batcher.take]
  split
  · next hx => exact ⟨.drops e.now _ hb hd ⟨e.tested,hx⟩,hsd⟩
  · exact ⟨.keeps e.now hb hk,hsk⟩

/-- A step of the worker. -/
theorem work_worked {e : Env} (hs : Sound b.guarded b.worker) (h : b.work setup e=some b') :
    Worked b b' ∧ Sound b'.guarded b'.worker := by
  rw [Batcher.work] at h
  cases hw : b.worker with
  | popping =>
    rw [hw] at h
    simp only at h
    cases hp : b.guarded.pop with
    | none =>
      rw [hp] at h
      cases h
    | some answer =>
      rw [hp] at h
      obtain ⟨rfl,hc⟩ := pop_eq hp
      cases hb : b.guarded.buffer with
      | nil =>
        rw [take_nil hb] at h
        rw [←Option.some.inj h]
        exact ⟨.moves _ (by rw [hw]; rfl),fun _ => ⟨hc hb,hb⟩⟩
      | cons entry rest =>
        rw [take_cons hb] at h
        refine take_worked hb ?_ ?_ ?_ ?_ (Option.some.inj h)
        · rw [hw]
        · rw [hw]
          rfl
        · trivial
        · exact List.cons_ne_nil _ _
  | filling batch deadline =>
    rw [hw] at h hs
    simp only at h
    split at h
    · split at h
      · rw [←Option.some.inj h]
        exact ⟨.moves _ (by rw [hw]; rfl),fun hn => absurd hn hs⟩
      · rw [←Option.some.inj h]
        exact ⟨.moves _ (by rw [hw]; rfl),hs⟩
    · rw [←Option.some.inj h]
      exact ⟨.moves _ (by rw [hw]; rfl),fun hn => absurd hn hs⟩
  | waiting batch deadline =>
    rw [hw] at h hs
    simp only at h
    cases hp : b.guarded.popFor e.expired with
    | none =>
      rw [hp] at h
      cases h
    | some answer =>
      rw [hp] at h
      rcases popFor_eq hp with ⟨rfl,_⟩ | ⟨rfl,_,_⟩
      · cases hb : b.guarded.buffer with
        | nil =>
          rw [take_nil hb] at h
          rw [←Option.some.inj h]
          exact ⟨.moves _ (by rw [hw]; rfl),hs⟩
        | cons entry rest =>
          rw [take_cons hb] at h
          refine take_worked hb ?_ ?_ ?_ ?_ (Option.some.inj h)
          · rw [hw]
            rfl
          · rw [hw]
            rfl
          · exact hs
          · exact List.append_ne_nil_of_left_ne_nil hs _
      · rw [←Option.some.inj h]
        exact ⟨.moves _ (by rw [hw]; rfl),fun hn => absurd hn hs⟩
  | draining batch =>
    rw [hw] at h hs
    simp only at h
    split at h
    · cases hb : b.guarded.buffer with
      | nil =>
        rw [Guarded.tryPop,take_nil hb] at h
        cases hc : b.guarded.closed with
        | true =>
          rw [hc] at h
          rw [←Option.some.inj h]
          exact ⟨.moves _ (by rw [hw]; rfl),fun hn => absurd hn hs⟩
        | false =>
          rw [hc] at h
          rw [←Option.some.inj h]
          exact ⟨.moves _ (by rw [hw]; rfl),fun hn => absurd hn hs⟩
      | cons entry rest =>
        rw [Guarded.tryPop,take_cons hb] at h
        refine take_worked hb ?_ ?_ ?_ ?_ (Option.some.inj h)
        · rw [hw]
        · rw [hw]
          rfl
        · exact hs
        · exact List.append_ne_nil_of_left_ne_nil hs _
    · rw [←Option.some.inj h]
      exact ⟨.moves _ (by rw [hw]; rfl),fun hn => absurd hn hs⟩
  | collected batch trigger =>
    rw [hw] at h hs
    simp only at h
    split at h
    · next hn =>
      rw [←Option.some.inj h]
      exact ⟨.moves _ (by rw [hw]; exact hn.symm),hs hn⟩
    · next hn =>
      rw [←Option.some.inj h]
      have hd := Worked.delivers (b := b) (by rw [hw]; exact hn)
      rw [hw] at hd
      exact ⟨hd,trivial⟩
  | handling =>
    rw [hw] at h
    rw [←Option.some.inj h]
    exact ⟨.moves _ (by rw [hw]; rfl),trivial⟩
  | returned =>
    rw [hw] at h
    cases h

/-- The submission was accepted. -/
def Granted (call : Call) : Prop := call=.decided .ok ∨ call=.returned .ok

/-- The submission is in the queue's hands. -/
def Offering (call : Call) (entry : Entry) : Prop := call=.pushing entry ∨ call=.trying entry

/-- What a caller's step does. -/
inductive Called (b : Batcher) : Batcher → Prop
  /-- A submission begins. -/
  | begins {call : Call} {entry : Entry} (ho : Offering call entry)
      (he : entry.ticket=b.calls.length) : Called b {b with calls := b.calls++[call]}
  /-- The queue accepts a request. -/
  | accepts {call : Call} {entry : Entry} {ticket : ℕ} (hc : b.calls[ticket]?=some call)
      (ho : Offering call entry) (hopen : b.guarded.closed=false) :
      Called b {b with
        guarded := {b.guarded with buffer := b.guarded.buffer++[entry]}
        calls := b.calls.set ticket (.decided .ok)
        accepted := b.accepted++[entry]}
  /-- The queue refuses a request. -/
  | refuses {call : Call} {entry : Entry} {ticket : ℕ} {status : QueueStatus}
      (hc : b.calls[ticket]?=some call) (ho : Offering call entry) (hs : status≠.ok) :
      Called b {b with calls := b.calls.set ticket (.decided status)}
  /-- A submission returns. -/
  | returns {ticket : ℕ} {status : QueueStatus} (hc : b.calls[ticket]?=some (.decided status)) :
      Called b {b with calls := b.calls.set ticket (.returned status)}
  /-- A shutdown finds another one before it. -/
  | repeats : Called b b
  /-- The first shutdown begins. -/
  | stops : Called b {b with stopping := true, first := .closing}
  /-- It closes the queue. -/
  | closes : Called b {b with guarded := {b.guarded with closed := true}, first := .joining}
  /-- It returns behind the worker. -/
  | joins (hw : b.worker=.returned) : Called b {b with first := .returned}

/-- A step is one of the worker or one of a caller. -/
theorem step_effect {action : Action} (h : b.step setup action=some b') :
    (∃ e, b.work setup e=some b') ∨ Called b b' := by
  cases action with
  | submit request =>
    rw [←Option.some.inj h]
    exact Or.inr (.begins (Or.inl rfl) rfl)
  | trySubmit request =>
    rw [←Option.some.inj h]
    exact Or.inr (.begins (Or.inr rfl) rfl)
  | offer ticket =>
    simp only [Batcher.step] at h
    split at h
    · next entry hc =>
      obtain ⟨answer,hp,rfl⟩ := Option.map_eq_some_iff.mp h
      rcases push_eq hp with ⟨_,rfl⟩ | ⟨ho,_,rfl⟩
      · exact Or.inr (.refuses hc (Or.inl rfl) QueueStatus.noConfusion)
      · exact Or.inr (.accepts hc (Or.inl rfl) ho)
    · next entry hc =>
      rw [←Option.some.inj h]
      rcases tryPush_eq setup.config.queueCapacity b.guarded entry with
        ⟨_,he⟩ | ⟨_,_,he⟩ | ⟨ho,_,he⟩
      · rw [he]
        exact Or.inr (.refuses hc (Or.inr rfl) QueueStatus.noConfusion)
      · rw [he]
        exact Or.inr (.refuses hc (Or.inr rfl) QueueStatus.noConfusion)
      · rw [he]
        exact Or.inr (.accepts hc (Or.inr rfl) ho)
    · cases h
  | answer ticket =>
    simp only [Batcher.step] at h
    split at h
    · next status hc =>
      rw [←Option.some.inj h]
      exact Or.inr (.returns hc)
    · cases h
  | shutdown =>
    rw [Batcher.step] at h
    split at h
    · rw [←Option.some.inj h]
      exact Or.inr .repeats
    · rw [←Option.some.inj h]
      exact Or.inr .stops
  | close =>
    obtain ⟨_,hb⟩ := Option.ite_none_right_eq_some.mp h
    rw [←Option.some.inj hb]
    exact Or.inr .closes
  | join =>
    obtain ⟨hj,hb⟩ := Option.ite_none_right_eq_some.mp h
    rw [←Option.some.inj hb]
    exact Or.inr (.joins hj.2)
  | work e => exact Or.inl ⟨e,h⟩

theorem kept_snoc (round : List Decision) (d : Decision) :
    kept (round++[d])=kept round++(if d.live then [d.stamped] else []) := by
  rw [kept,List.filter_append,List.map_append,kept]
  cases hd : d.live <;> simp only [List.filter_cons,hd,List.filter_nil] <;> rfl

theorem lapsed_snoc (round : List Decision) (d : Decision) :
    lapsed (round++[d])=lapsed round++(if d.live then [] else [d.stamped]) := by
  rw [lapsed,List.filter_append,List.map_append,lapsed]
  cases hd : d.live <;> simp only [List.filter_cons,hd,List.filter_nil] <;> rfl

/-- What was accepted was taken in rounds or is in the queue, in order, and
the log is what the rounds leave. -/
def Ledger (b : Batcher) : Prop := ∃ (rounds : List (List Decision)) (round : List Decision),
  b.accepted=(rounds.flatten++round).map Decision.entry++b.guarded.buffer ∧
    b.log=rounds.flatMap render++(lapsed round).map .dropped ∧ kept round=batchOf b.worker

theorem map_snoc (earlier round : List Decision) (d : Decision) (rest : List Entry) :
    (earlier++(round++[d])).map Decision.entry++rest=
      (earlier++round).map Decision.entry++(d.entry::rest) := by
  simp only [List.map_append,List.append_assoc,List.map_cons,List.map_nil,List.cons_append,
    List.nil_append]

/-- The worker keeps the ledger. -/
theorem Ledger.worked (h : Ledger b) (hw : Worked b b') : Ledger b' := by
  obtain ⟨rounds,round,ha,hl,hk⟩ := h
  cases hw with
  | @drops entry rest worker now failed hb hw hx =>
    refine ⟨rounds,round++[⟨entry,now,false⟩],?_,?_,?_⟩
    · rw [ha,hb]
      exact (map_snoc rounds.flatten round ⟨entry,now,false⟩ rest).symm
    · rw [lapsed_snoc,hl,List.map_append,List.append_assoc]
      rfl
    · rw [kept_snoc,hk,hw]
      exact List.append_nil _
  | @keeps entry rest worker now hb hw =>
    refine ⟨rounds,round++[⟨entry,now,true⟩],?_,?_,?_⟩
    · rw [ha,hb]
      exact (map_snoc rounds.flatten round ⟨entry,now,true⟩ rest).symm
    · rw [lapsed_snoc,hl]
      exact congrArg (fun drops => rounds.flatMap render++drops.map Outcome.dropped)
        (List.append_nil _).symm
    · rw [kept_snoc,hk,hw]
      rfl
  | moves failed hw => exact ⟨rounds,round,ha,hl,hk.trans hw.symm⟩
  | delivers hn =>
    refine ⟨rounds++[round],[],?_,?_,rfl⟩
    · rw [ha,List.flatten_append,List.flatten_singleton,List.append_nil]
    · rw [hl,List.flatMap_append,List.flatMap_singleton,render,hk,if_neg hn,List.append_assoc]
      exact (List.append_nil _).symm

/-- The callers keep the ledger. -/
theorem Ledger.called (h : Ledger b) (hc : Called b b') : Ledger b' := by
  obtain ⟨rounds,round,ha,hl,hk⟩ := h
  cases hc with
  | begins => exact ⟨rounds,round,ha,hl,hk⟩
  | accepts => exact ⟨rounds,round,by rw [ha,List.append_assoc],hl,hk⟩
  | refuses => exact ⟨rounds,round,ha,hl,hk⟩
  | returns => exact ⟨rounds,round,ha,hl,hk⟩
  | repeats => exact ⟨rounds,round,ha,hl,hk⟩
  | stops => exact ⟨rounds,round,ha,hl,hk⟩
  | closes => exact ⟨rounds,round,ha,hl,hk⟩
  | joins => exact ⟨rounds,round,ha,hl,hk⟩

/-- A drained queue stays drained. -/
theorem Sound.called (h : Sound b.guarded b.worker) (hc : Called b b') :
    Sound b'.guarded b'.worker := by
  cases hc with
  | begins => exact h
  | accepts hc ho hopen =>
    -- An open queue is not drained, so the worker is still collecting.
    have hn : ¬Dry b.guarded := fun hd => Bool.noConfusion (hopen.symm.trans hd.1)
    cases hw : b.worker with
    | collected batch trigger =>
      rw [hw] at h
      exact fun hb => absurd (h hb) hn
    | returned =>
      rw [hw] at h
      exact absurd h hn
    | filling batch deadline => rwa [hw] at h
    | waiting batch deadline => rwa [hw] at h
    | draining batch => rwa [hw] at h
    | popping => trivial
    | handling => trivial
  | refuses => exact h
  | returns => exact h
  | repeats => exact h
  | stops => exact h
  | closes =>
    cases hw : b.worker with
    | collected batch trigger =>
      rw [hw] at h
      exact fun hb => ⟨rfl,(h hb).2⟩
    | returned =>
      rw [hw] at h
      exact ⟨rfl,h.2⟩
    | filling batch deadline => rwa [hw] at h
    | waiting batch deadline => rwa [hw] at h
    | draining batch => rwa [hw] at h
    | popping => trivial
    | handling => trivial
  | joins => exact h

/-- Tickets tell the accepted requests apart and are exactly the calls that
were accepted. -/
structure Ticketed (b : Batcher) : Prop where
  /-- Nothing is accepted twice. -/
  nodup : (b.accepted.map Entry.ticket).Nodup
  /-- What was accepted was submitted by a call that was told so. -/
  granted : ∀ ticket,
    ticket∈b.accepted.map Entry.ticket ↔ ∃ call, b.calls[ticket]?=some call ∧ Granted call
  /-- A call offers its own ticket. -/
  own : ∀ ticket call entry, b.calls[ticket]?=some call → Offering call entry →
    entry.ticket=ticket

/-- No call is both in the queue's hands and accepted. -/
theorem not_granted {call : Call} {entry : Entry} (h : Offering call entry) : ¬Granted call := by
  rcases h with rfl | rfl
  · rintro (h | h) <;> cases h
  · rintro (h | h) <;> cases h

/-- The worker has nothing to do with tickets. -/
theorem Ticketed.worked (h : Ticketed b) (hw : Worked b b') : Ticketed b' := by
  cases hw with
  | drops => exact ⟨h.nodup,h.granted,h.own⟩
  | keeps => exact ⟨h.nodup,h.granted,h.own⟩
  | moves => exact ⟨h.nodup,h.granted,h.own⟩
  | delivers => exact ⟨h.nodup,h.granted,h.own⟩

/-- A call that moves on without being accepted, and that had not been. -/
theorem Ticketed.moved {ticket : ℕ} {old new : Call} (h : Ticketed b)
    (hc : b.calls[ticket]?=some old) (hg : Granted new ↔ Granted old)
    (ho : ∀ entry, ¬Offering new entry) (hb : b'.accepted=b.accepted)
    (hcalls : b'.calls=b.calls.set ticket new) : Ticketed b' := by
  have hl : ticket < b.calls.length := (List.getElem?_eq_some_iff.mp hc).1
  constructor
  · rw [hb]
    exact h.nodup
  · intro other
    rw [hb,h.granted,hcalls]
    by_cases he : ticket=other
    · rw [←he,List.getElem?_set_self hl,hc]
      constructor
      · rintro ⟨call,hcall,hgc⟩
        exact ⟨new,rfl,hg.mpr (Option.some.inj hcall ▸ hgc)⟩
      · rintro ⟨call,hcall,hgc⟩
        exact ⟨old,rfl,hg.mp (Option.some.inj hcall ▸ hgc)⟩
    · rw [List.getElem?_set_ne he]
  · intro other call entry hcall hoc
    rw [hcalls] at hcall
    by_cases he : ticket=other
    · rw [←he,List.getElem?_set_self hl] at hcall
      exact absurd (Option.some.inj hcall ▸ hoc) (ho entry)
    · rw [List.getElem?_set_ne he] at hcall
      exact h.own other call entry hcall hoc

/-- A new call has not been accepted. -/
theorem Ticketed.begun {call : Call} {entry : Entry} (h : Ticketed b) (ho : Offering call entry)
    (he : entry.ticket=b.calls.length) : Ticketed {b with calls := b.calls++[call]} := by
  constructor
  · exact h.nodup
  · intro ticket
    rw [h.granted]
    constructor
    · rintro ⟨other,hc,hg⟩
      exact ⟨other,(List.getElem?_append_left (List.getElem?_eq_some_iff.mp hc).1).trans hc,hg⟩
    · rintro ⟨other,hc,hg⟩
      rcases ThreadPools.getElem?_snoc hc with hc | ⟨_,rfl⟩
      · exact ⟨other,hc,hg⟩
      · exact absurd hg (not_granted ho)
  · intro ticket other entry' hc ho'
    rcases ThreadPools.getElem?_snoc hc with hc | ⟨rfl,rfl⟩
    · exact h.own ticket other entry' hc ho'
    · have hsame : entry'=entry := by
        rcases ho with rfl | rfl <;> rcases ho' with ho' | ho' <;> cases ho' <;> rfl
      exact hsame ▸ he

/-- An accepted call was not accepted before. -/
theorem Ticketed.granting {call : Call} {entry : Entry} {ticket : ℕ} (h : Ticketed b)
    (hc : b.calls[ticket]?=some call) (ho : Offering call entry) {g : Guarded Entry} :
    Ticketed {b with
      guarded := g, calls := b.calls.set ticket (.decided .ok), accepted := b.accepted++[entry]} := by
  have hl : ticket < b.calls.length := (List.getElem?_eq_some_iff.mp hc).1
  have ht : entry.ticket=ticket := h.own ticket call entry hc ho
  have hn : ticket∉b.accepted.map Entry.ticket := by
    intro hm
    obtain ⟨other,hother,hg⟩ := (h.granted ticket).mp hm
    exact not_granted ho (Option.some.inj (hc.symm.trans hother) ▸ hg)
  constructor
  · rw [List.map_append,List.map_singleton,ht]
    exact List.nodup_append.mpr ⟨h.nodup,List.nodup_singleton _,
      fun a ha b hb => fun he => hn (List.mem_singleton.mp hb ▸ he ▸ ha)⟩
  · intro other
    rw [List.map_append,List.map_singleton,ht,List.mem_append,List.mem_singleton,h.granted]
    by_cases he : ticket=other
    · rw [←he,List.getElem?_set_self hl]
      exact ⟨fun _ => ⟨_,rfl,Or.inl rfl⟩,fun _ => Or.inr rfl⟩
    · rw [List.getElem?_set_ne he]
      exact ⟨fun ho => ho.resolve_right (fun hs => he hs.symm),Or.inl⟩
  · intro other call' entry' hcall hoc
    by_cases he : ticket=other
    · rw [←he,List.getElem?_set_self hl] at hcall
      rcases hoc with rfl | rfl <;> cases hcall
    · rw [List.getElem?_set_ne he] at hcall
      exact h.own other call' entry' hcall hoc

/-- The callers keep the tickets apart. -/
theorem Ticketed.called (h : Ticketed b) (hc : Called b b') : Ticketed b' := by
  cases hc with
  | begins ho he => exact h.begun ho he
  | accepts hc ho hopen => exact h.granting hc ho
  | @refuses call entry ticket status hc ho hs =>
    refine h.moved hc ⟨fun hg => ?_,fun hg => absurd hg (not_granted ho)⟩ ?_ rfl rfl
    · rcases hg with hg | hg
      · exact absurd (Call.decided.inj hg) hs
      · cases hg
    · rintro entry (ho | ho) <;> cases ho
  | @returns ticket status hc =>
    refine h.moved hc ⟨fun hg => ?_,fun hg => ?_⟩ ?_ rfl rfl
    · rcases hg with hg | hg
      · cases hg
      · exact Or.inl (congrArg Call.decided (Call.returned.inj hg))
    · rcases hg with hg | hg
      · exact Or.inr (congrArg Call.returned (Call.decided.inj hg))
      · cases hg
    · rintro entry (ho | ho) <;> cases ho
  | repeats => exact h
  | stops => exact ⟨h.nodup,h.granted,h.own⟩
  | closes => exact ⟨h.nodup,h.granted,h.own⟩
  | joins => exact ⟨h.nodup,h.granted,h.own⟩

/-- Only expired requests were dropped. -/
def Lapses (b : Batcher) : Prop :=
  ∀ entry, .dropped entry∈b.log → ∃ now, entry.request.expired now=true

/-- The worker drops only expired requests. -/
theorem Lapses.worked (h : Lapses b) (hw : Worked b b') : Lapses b' := by
  cases hw with
  | drops now failed hb hw hx =>
    intro entry hm
    rcases List.mem_append.mp hm with hm | hm
    · exact h entry hm
    · obtain rfl := Outcome.dropped.inj (List.mem_singleton.mp hm)
      exact hx
  | keeps => exact h
  | moves => exact h
  | delivers =>
    intro entry hm
    rcases List.mem_append.mp hm with hm | hm
    · exact h entry hm
    · cases List.mem_singleton.mp hm

/-- The callers leave the log alone. -/
theorem Called.log (h : Called b b') : b'.log=b.log := by
  cases h <;> rfl

/-- What holds in every reachable state. -/
structure Holds (b : Batcher) : Prop where
  ledger : Ledger b
  sound : Sound b.guarded b.worker
  ticketed : Ticketed b
  lapses : Lapses b
  /-- The first shutdown returns behind the worker. -/
  joined : b.first=.returned → b.worker=.returned

/-- Nothing has happened to a new batcher. -/
theorem make_holds (h : make setup=.ok b) : Holds b := by
  rw [NativeBatcher.make] at h
  cases hv : setup.config.validate with
  | error message =>
    rw [hv] at h
    cases h
  | ok _ =>
    rw [hv] at h
    rw [←Except.ok.inj h]
    have ht : Ticketed {} := ⟨List.nodup_nil,fun ticket => ⟨fun hm => absurd hm List.not_mem_nil,
      fun ⟨_,hc,_⟩ => nomatch hc⟩,fun _ _ _ hc => nomatch hc⟩
    exact ⟨⟨[],[],rfl,rfl,rfl⟩,trivial,ht,fun _ hm => absurd hm List.not_mem_nil,nofun⟩

/-- The worker leaves the shutdown calls alone. -/
theorem Worked.first (h : Worked b b') : b'.first=b.first := by
  cases h <;> rfl

/-- Every step keeps it. -/
theorem Holds.step {action : Action} (h : Holds b) (hb : b.step setup action=some b') :
    Holds b' := by
  rcases step_effect hb with ⟨e,he⟩ | hc
  · obtain ⟨hw,hs⟩ := work_worked h.sound he
    refine ⟨h.ledger.worked hw,hs,h.ticketed.worked hw,h.lapses.worked hw,fun hf => ?_⟩
    rw [Batcher.work,h.joined (hw.first ▸ hf)] at he
    cases he
  · have hl : Lapses b' := fun entry hm => h.lapses entry (hc.log ▸ hm)
    refine ⟨h.ledger.called hc,Sound.called h.sound hc,h.ticketed.called hc,hl,?_⟩
    cases hc with
    | begins => exact h.joined
    | accepts => exact h.joined
    | refuses => exact h.joined
    | returns => exact h.joined
    | repeats => exact h.joined
    | stops => exact nofun
    | closes => exact nofun
    | joins hw => exact fun _ => hw

/-- What holds in every run. -/
theorem reaches_holds (h : (machine setup).Reaches b) : Holds b :=
  h.invariant (fun _ hs => make_holds hs) (fun _ _ _ hb hs => hb.step hs)

theorem settled_append (log more : List Outcome) :
    settled (log++more)=settled log++settled more := List.flatMap_append

/-- Dropped requests are settled one by one. -/
theorem settled_drops (entries : List Entry) :
    settled (entries.map .dropped)=entries.map Entry.ticket := by
  induction entries with
  | nil => rfl
  | cons entry rest ih =>
    rw [List.map_cons,List.map_cons,←ih]
    rfl

/-- A round settles what was taken in it. -/
theorem settled_render (round : List Decision) :
    (settled (render round)).Perm (round.map (fun d => d.entry.ticket)) := by
  have hk : settled (if kept round=[] then [] else [.delivered (kept round)])=
      (kept round).map Entry.ticket := by
    by_cases hn : kept round=[]
    · rw [if_pos hn,hn]
      rfl
    · rw [if_neg hn]
      exact List.append_nil _
  rw [render,settled_append,settled_drops,hk,lapsed,kept,List.map_map,List.map_map,
    ←List.map_append]
  refine (List.Perm.map _ ?_)
  exact List.perm_append_comm.trans (List.filter_append_perm _ round)

/-- The rounds settle what was taken in them. -/
theorem settled_rounds (rounds : List (List Decision)) :
    (settled (rounds.flatMap render)).Perm (rounds.flatten.map (fun d => d.entry.ticket)) := by
  induction rounds with
  | nil => exact List.Perm.refl _
  | cons round rest ih =>
    rw [List.flatMap_cons,settled_append,List.flatten_cons,List.map_append]
    exact (settled_render round).append ih

/-- Whatever is settled was accepted, and no more than once. -/
theorem Holds.settled_subperm (h : Holds b) :
    (settled b.log).Subperm (b.accepted.map Entry.ticket) := by
  obtain ⟨rounds,round,ha,hl,hk⟩ := h.ledger
  rw [ha,hl,settled_append,settled_drops,List.map_append,List.map_map,List.map_append]
  refine ((List.Perm.subperm (settled_rounds rounds)).append ?_).trans
    (List.sublist_append_left _ _).subperm
  rw [lapsed,List.map_map]
  exact ((List.filter_sublist).map _).subperm

/-- When the first shutdown has returned, the rounds took everything. -/
theorem Holds.drained (h : Holds b) (hf : b.first=.returned) :
    ∃ rounds : List (List Decision),
      b.accepted=rounds.flatten.map Decision.entry ∧ b.log=rounds.flatMap render := by
  obtain ⟨rounds,round,ha,hl,hk⟩ := h.ledger
  have hw := h.joined hf
  have hd := h.sound
  rw [hw] at hd hk
  have hn : kept round=[] := hk
  refine ⟨rounds++[round],?_,?_⟩
  · rw [ha,hd.2,List.append_nil,List.flatten_append,List.flatten_singleton]
  · rw [hl,List.flatMap_append,List.flatMap_singleton,render,if_pos hn,List.append_nil]

/-- When the first shutdown has returned, every accepted request was delivered
in one batch or dropped once, and the batches and drops are those of rounds
that took the accepted requests in their order. Only expired requests are ever
dropped, and a refused one is never delivered or dropped. -/
theorem shutdown_settles (h : (machine setup).Reaches b) :
    (b.first=.returned →
      (∀ ticket call, b.calls[ticket]?=some call → Granted call →
        (settled b.log).count ticket=1) ∧
      ∃ rounds : List (List Decision),
        b.accepted=rounds.flatten.map Decision.entry ∧ b.log=rounds.flatMap render) ∧
      Lapses b ∧ ∀ ticket status, b.calls[ticket]?=some (.returned status) → status≠.ok →
        ticket∉settled b.log := by
  have hh := reaches_holds h
  refine ⟨?_,hh.lapses,?_⟩
  · intro hf
    obtain ⟨rounds,ha,hl⟩ := hh.drained hf
    refine ⟨fun ticket call hc hg => ?_,rounds,ha,hl⟩
    have hp : (settled b.log).Perm (b.accepted.map Entry.ticket) := by
      rw [ha,hl,List.map_map]
      exact settled_rounds rounds
    rw [hp.count_eq]
    exact List.count_eq_one_of_mem hh.ticketed.nodup
      ((hh.ticketed.granted ticket).mpr ⟨call,hc,hg⟩)
  · intro ticket status hc hs hm
    obtain ⟨call,hcall,hg⟩ := (hh.ticketed.granted ticket).mp (hh.settled_subperm.subset hm)
    obtain rfl := Option.some.inj (hc.symm.trans hcall)
    rcases hg with hg | hg
    · cases hg
    · exact hs (Call.returned.inj hg)

/-- Two accepted requests of which the second has expired, and one refused by
the closed queue; both handlers throw. -/
def throwingShutdown : List Action :=
  [.submit {id := 1},.trySubmit {id := 2, deadline := 5},.offer 0,.offer 1,.answer 0,.work {},
    .shutdown,.submit {id := 3},.close,.answer 1,.offer 2,.answer 2,.work {now := 1},
    .work {now := 6, tested := 7, raises := true},.work {now := 8},.work {now := 9},
    .work {now := 10},.work {},.work {raises := true},.work {},.work {},.join]

/-- The run that shuts down behind throwing handlers settles both requests. -/
theorem throwingShutdown_settles : ∃ b, (machine {onExpired := true}).Reaches b ∧
    b.first=.returned ∧ b.failed=2 ∧ b.calls=[.returned .ok,.returned .ok,.returned .closed] ∧
    (settled b.log).count 0=1 ∧ (settled b.log).count 1=1 ∧ 2∉settled b.log := by
  obtain ⟨b,hr,hb,hf,hc⟩ := Machine.Reaches.replayed (m := machine {onExpired := true})
    (P := fun b => b.first=.returned ∧ b.failed=2 ∧
      b.calls=[.returned .ok,.returned .ok,.returned .closed]) (fun _ _ => true)
    (fun _ _ _ h => h) throwingShutdown (.start rfl) (by decide +kernel)
  have hs := shutdown_settles hr.of_guarded
  obtain ⟨hsettled,_⟩ := hs.1 hb
  exact ⟨b,hr.of_guarded,hb,hf,hc,
    hsettled 0 (.returned .ok) (by rw [hc]; rfl) (Or.inr rfl),
    hsettled 1 (.returned .ok) (by rw [hc]; rfl) (Or.inr rfl),
    hs.2.2 2 .closed (by rw [hc]; rfl) QueueStatus.noConfusion⟩

end CudaForge.NativeShutdown
