import CudaForge.EventHistories
import CudaForge.SchedulerLedger

/-!
# The order in which the runner is called

The runner's protocol as a rule on events and their histories: a sequence
is prefilled once, while running, before it is decoded, evicted or settled,
and a decode step gets exactly the running set. The scheduler keeps it in
every run in which no admission evicts a sequence that the same pass
admitted; such a sequence is evicted before it is prefilled, and its row is
never dropped.
-/

namespace CudaForge.RunnerProtocol

open CacheBlocks CacheManager CacheInvariant ServingTypes ContinuousScheduler SchedulerEffects
open SchedulerLedger EventHistories TransitionRuns

variable {config : BatcherConfig} {env : Env} {s t : Batcher}
variable {sequence : SequenceId} {pass : List SequenceId}

/-- The event names a sequence to the runner, or settles it. -/
def Touches (sequence : SequenceId) : Event → Prop
  | .prefill passed _ => sequence∈passed
  | .decode passed _ => sequence∈passed
  | .evict other => other=sequence
  | .settled _ _ other => other=some sequence
  | _ => False

/-- The event prefills a sequence. -/
def Prefills (sequence : SequenceId) : Event → Prop
  | .prefill passed _ => sequence∈passed
  | _ => False

/-- The event gives a sequence its row. -/
def Enters (sequence : SequenceId) : Event → Prop
  | .entered _ other => other=sequence
  | _ => False

/-- Neither named to the runner nor settled so far. -/
def Untouched (sequence : SequenceId) (trace : List Event) : Prop :=
  ∀ event∈trace, ¬Touches sequence event

/-- Prefilled so far. -/
def Prefilled (sequence : SequenceId) (trace : List Event) : Prop :=
  ∃ event∈trace, Prefills sequence event

/-- Admitted so far. -/
def Entered (sequence : SequenceId) (trace : List Event) : Prop :=
  ∃ event∈trace, Enters sequence event

/-- Prefilled and, later, evicted: the runner holds no row of it. -/
def Dropped (sequence : SequenceId) (trace : List Event) : Prop :=
  ∃ before later, trace=before++.evict sequence::later ∧ Prefilled sequence before

/-- The rule of the protocol. -/
def Allowed (before : List Event) : Event → Prop
  | .prefill passed running =>
    passed.Nodup ∧ ∀ sequence∈passed, sequence∈running ∧ Untouched sequence before
  | .decode passed running => passed=running ∧ ∀ sequence∈passed, Prefilled sequence before
  | .evict sequence => Prefilled sequence before
  | _ => True

/-- A run so far keeps the protocol, and once the thread has returned the
runner holds no row. -/
def KeepsProtocol (s : Batcher) : Prop :=
  Lawful Allowed s.trace ∧
    (s.phase=.returned → ∀ sequence, Prefilled sequence s.trace ∨ Entered sequence s.trace →
      Dropped sequence s.trace)

/-- What a step offers to the cache, if anything: the admissions of the pass
so far, and the request. -/
def offerOf (config : BatcherConfig) (s : Batcher) (env : Env) :
    Option (List SequenceState×Request) :=
  match s.phase with
  | .admitting admitted =>
    if config.maxBatch ≤ s.running.length+admitted.length then none
    else
      match s.deferred with
      | some request => some (admitted,request)
      | none =>
        match env.read with
        | .request read =>
          let request : Request := {read with dequeuedAt := some env.now}
          if request.expired env.checkedAt then none else some (admitted,request)
        | _ => none
  | _ => none

/-- If the step offers a request, the cache evicts nobody that this pass
admitted. -/
def SparesPass (config : BatcherConfig) (s : Batcher) (env : Env) : Prop :=
  ∀ offer∈offerOf config s env,
    ∀ state∈offer.1, state.sequenceId∉offerVictims config s offer.2

instance (s : Batcher) : Decidable (SparesPass config s env) :=
  inferInstanceAs (Decidable (∀ offer∈offerOf config s env,
    ∀ state∈offer.1, state.sequenceId∉offerVictims config s offer.2))

/-- The step does offer what `offerOf` says. -/
theorem offerOf_eq {admitted : List SequenceState} {request : Request} {u : Batcher}
    (hp : s.phase=.admitting admitted) (hm : s.running.length+admitted.length<config.maxBatch)
    (hh : InHand env s request u) (he : s.deferred=none → request.expired env.checkedAt=false) :
    offerOf config s env=some (admitted,request) := by
  unfold offerOf
  rw [hp]
  simp only [if_neg (Nat.not_le.mpr hm)]
  cases hh with
  | deferred hd => rw [hd]
  | read hd hr hs =>
    have hx := he hd
    rw [hs] at hx
    rw [hd,hr,hs]
    simp only [hx,Bool.false_eq_true,if_false]

theorem untouched_append {trace events : List Event} :
    Untouched sequence (trace++events) ↔ Untouched sequence trace ∧ Untouched sequence events :=
  List.forall_mem_append

theorem untouched_singleton {event : Event} :
    Untouched sequence [event] ↔ ¬Touches sequence event := by
  simp only [Untouched,List.mem_singleton,forall_eq]

theorem prefilled_append {trace events : List Event} :
    Prefilled sequence (trace++events) ↔ Prefilled sequence trace ∨ Prefilled sequence events := by
  simp only [Prefilled,List.mem_append,or_and_right,exists_or]

theorem entered_append {trace events : List Event} :
    Entered sequence (trace++events) ↔ Entered sequence trace ∨ Entered sequence events := by
  simp only [Entered,List.mem_append,or_and_right,exists_or]

theorem prefilled_singleton {event : Event} :
    Prefilled sequence [event] ↔ Prefills sequence event := by
  simp only [Prefilled,List.mem_singleton,exists_eq_left]

theorem entered_singleton {event : Event} : Entered sequence [event] ↔ Enters sequence event := by
  simp only [Entered,List.mem_singleton,exists_eq_left]

theorem Dropped.append {trace : List Event} (h : Dropped sequence trace) (events : List Event) :
    Dropped sequence (trace++events) := lasting_split _ _ trace events h

/-- What an admission pass relies on. -/
structure Orderly (pass : List SequenceId) (s : Batcher) : Prop where
  lawful : Lawful Allowed s.trace
  rows : RowIds s
  /-- Ids not issued yet have not been used. -/
  future : ∀ sequence, s.nextId ≤ sequence → Untouched sequence s.trace
  pass_distinct : pass.Nodup
  /-- What the pass admitted is running and unknown to the runner. -/
  pass_running : ∀ sequence∈pass, sequence∈ids s.running ∧ Untouched sequence s.trace
  /-- Everything else that runs was prefilled. -/
  others : ∀ sequence∈ids s.running, sequence∈pass ∨ Prefilled sequence s.trace
  /-- What does not run any more was dropped. -/
  gone : ∀ sequence, Prefilled sequence s.trace ∨ Entered sequence s.trace →
    sequence∈ids s.running ∨ Dropped sequence s.trace

/-- An event the protocol does not speak of. -/
def Neutral (event : Event) : Prop :=
  (∀ before, Allowed before event) ∧ ∀ sequence, ¬Touches sequence event ∧ ¬Enters sequence event

/-- Neutral events keep the order of things. -/
theorem Orderly.neutral (h : Orderly pass s) (events : List Event)
    (hn : ∀ event∈events, Neutral event) (ht : t.trace=s.trace++events)
    (hr : ids t.running=ids s.running) (hi : s.nextId≤t.nextId) : Orderly pass t := by
  have hu : ∀ sequence, Untouched sequence events := fun sequence event hm =>
    ((hn event hm).2 sequence).1
  have hp : ∀ sequence, ¬Prefilled sequence events := by
    intro sequence ⟨event,hm,hp⟩
    cases event with
    | prefill passed running => exact hu sequence _ hm hp
    | _ => exact hp
  have he : ∀ sequence, ¬Entered sequence events := fun sequence ⟨event,hm,hp⟩ =>
    ((hn event hm).2 sequence).2 hp
  refine ⟨?_,h.rows.sublist (hr ▸ List.Sublist.refl _) hi,?_,h.pass_distinct,?_,?_,?_⟩
  · rw [ht]
    refine h.lawful.extend ?_
    intro before event later hs
    exact (hn event (hs ▸ List.mem_append_right _ List.mem_cons_self)).1 _
  · intro sequence hs
    rw [ht]
    exact untouched_append.mpr ⟨h.future sequence (hi.trans hs),hu sequence⟩
  · intro sequence hs
    rw [hr,ht]
    exact ⟨(h.pass_running sequence hs).1,
      untouched_append.mpr ⟨(h.pass_running sequence hs).2,hu sequence⟩⟩
  · intro sequence hs
    rw [hr] at hs
    rw [ht]
    exact (h.others sequence hs).imp id (fun hp => prefilled_append.mpr (.inl hp))
  · intro sequence hs
    rw [ht,prefilled_append,entered_append] at hs
    rw [hr,ht]
    refine (h.gone sequence ?_).imp id (fun hd => hd.append events)
    exact hs.imp (fun hs => hs.resolve_right (hp sequence))
      (fun hs => hs.resolve_right (he sequence))

/-- Only the trace, the rows' ids and the next id matter. -/
theorem Orderly.frame (h : Orderly pass s) (ht : t.trace=s.trace)
    (hr : ids t.running=ids s.running) (hi : t.nextId=s.nextId) : Orderly pass t :=
  h.neutral [] (fun _ hm => absurd hm List.not_mem_nil) (ht.trans (List.append_nil _).symm) hr
    (Nat.le_of_eq hi.symm)

/-- The events of rows given back name only these rows, and prefill or
enter none. -/
theorem settleEvents_mem {kind : Settlement} {rows : List (Request×SequenceState)} {event : Event}
    (hm : event∈rows.flatMap (settleEvents kind)) :
    ∃ row∈rows, event=.evict row.2.sequenceId ∨
      event=.settled kind row.1 (some row.2.sequenceId) := by
  obtain ⟨row,hr,he⟩ := List.mem_flatMap.mp hm
  simp only [settleEvents,List.mem_cons,List.not_mem_nil,or_false] at he
  exact ⟨row,hr,he⟩

theorem settleEvents_untouched {kind : Settlement} {rows : List (Request×SequenceState)}
    (hs : sequence∉ids rows) : Untouched sequence (rows.flatMap (settleEvents kind)) := by
  intro event hm ht
  obtain ⟨row,hr,rfl | rfl⟩ := settleEvents_mem hm
  · exact hs (List.mem_map.mpr ⟨row,hr,ht⟩)
  · exact hs (List.mem_map.mpr ⟨row,hr,Option.some.inj ht⟩)

theorem settleEvents_prefills (kind : Settlement) (rows : List (Request×SequenceState)) :
    ¬Prefilled sequence (rows.flatMap (settleEvents kind)) ∧
      ¬Entered sequence (rows.flatMap (settleEvents kind)) := by
  refine ⟨?_,?_⟩
  · intro ⟨event,hm,hp⟩
    obtain ⟨row,_,rfl | rfl⟩ := settleEvents_mem hm <;> exact hp
  · intro ⟨event,hm,hp⟩
    obtain ⟨row,_,rfl | rfl⟩ := settleEvents_mem hm <;> exact hp

/-- A prefilled row given back is dropped. -/
theorem settleEvents_dropped {kind : Settlement} {rows : List (Request×SequenceState)}
    {trace : List Event} (hs : sequence∈ids rows) (hp : Prefilled sequence trace) :
    Dropped sequence (trace++rows.flatMap (settleEvents kind)) := by
  obtain ⟨row,hr,he⟩ := List.mem_map.mp hs
  have hm : Event.evict sequence∈rows.flatMap (settleEvents kind) := by
    refine List.mem_flatMap.mpr ⟨row,hr,?_⟩
    rw [settleEvents,he]
    exact List.mem_cons_self
  obtain ⟨before,later,hb⟩ := List.append_of_mem hm
  refine ⟨trace++before,later,?_,prefilled_append.mpr (.inl hp)⟩
  rw [hb,List.append_assoc]

/-- Rows outside the pass are given back in order. -/
theorem Orderly.departed (h : Orderly pass s) (env : Env) (kind : Settlement)
    (count : ContinuousStats → ContinuousStats) {leaves : SequenceState → Bool}
    (hl : ∀ row∈s.running, leaves row.2=true → row.2.sequenceId∉pass) :
    Orderly pass (departed env kind count leaves s) := by
  have hsub := departed_sublist env kind count leaves s
  have hgone : ∀ sequence∈ids (s.running.filter (fun row => leaves row.2)),
      sequence∈ids s.running ∧ sequence∉pass := by
    intro sequence hs
    obtain ⟨row,hr,rfl⟩ := List.mem_map.mp hs
    obtain ⟨hm,hlv⟩ := List.mem_filter.mp hr
    exact ⟨List.mem_map_of_mem hm,hl row hm hlv⟩
  have ht : (SchedulerEffects.departed env kind count leaves s).trace=
      s.trace++(s.running.filter (fun row => leaves row.2)).flatMap (settleEvents kind) := rfl
  have hprefilled : ∀ sequence∈ids (s.running.filter (fun row => leaves row.2)),
      Prefilled sequence s.trace := fun sequence hs =>
    (h.others sequence (hgone sequence hs).1).resolve_left (hgone sequence hs).2
  have hstay : ∀ sequence∈ids s.running,
      sequence∈ids (SchedulerEffects.departed env kind count leaves s).running ∨
        sequence∈ids (s.running.filter (fun row => leaves row.2)) := by
    intro sequence hs
    obtain ⟨row,hr,rfl⟩ := List.mem_map.mp hs
    cases hlv : leaves row.2 with
    | true => exact Or.inr (List.mem_map_of_mem (List.mem_filter.mpr ⟨hr,hlv⟩))
    | false =>
      exact Or.inl (List.mem_map_of_mem (List.mem_filter.mpr ⟨hr,by rw [hlv]; rfl⟩))
  refine ⟨?_,h.rows.sublist hsub (Nat.le_refl _),?_,h.pass_distinct,?_,?_,?_⟩
  · rw [ht]
    refine h.lawful.extend ?_
    intro before event later hs
    obtain ⟨row,hr,rfl | rfl⟩ := settleEvents_mem (hs ▸ List.mem_append_right _ List.mem_cons_self)
    · exact prefilled_append.mpr (.inl (hprefilled _ (List.mem_map_of_mem hr)))
    · exact trivial
  · intro sequence hs
    rw [ht]
    refine untouched_append.mpr ⟨h.future sequence hs,settleEvents_untouched ?_⟩
    intro hm
    exact absurd (h.rows.issued sequence (hgone sequence hm).1) (Nat.not_lt.mpr hs)
  · intro sequence hs
    rw [ht]
    have hn : sequence∉ids (s.running.filter (fun row => leaves row.2)) :=
      fun hm => (hgone sequence hm).2 hs
    exact ⟨(hstay sequence (h.pass_running sequence hs).1).resolve_right hn,
      untouched_append.mpr ⟨(h.pass_running sequence hs).2,settleEvents_untouched hn⟩⟩
  · intro sequence hs
    rw [ht]
    exact (h.others sequence (hsub.subset hs)).imp id
      (fun hp => prefilled_append.mpr (.inl hp))
  · intro sequence hs
    rw [ht,prefilled_append,entered_append] at hs
    have hs' := h.gone sequence (hs.imp (fun hs => hs.resolve_right (settleEvents_prefills _ _).1)
      (fun hs => hs.resolve_right (settleEvents_prefills _ _).2))
    rcases hs' with hr | hd
    · rcases hstay sequence hr with hr | hg
      · exact Or.inl hr
      · exact Or.inr (ht ▸ settleEvents_dropped hg (hprefilled sequence hg))
    · exact Or.inr (ht ▸ hd.append _)

/-- A new sequence gets a row and joins the pass. -/
theorem Orderly.started (h : Orderly pass s) (config : BatcherConfig) (env : Env)
    (request : Request) {victims : List SequenceId} (hv : ∀ sequence∈pass, sequence∉victims) :
    Orderly (pass++[s.nextId]) (withRow request (newSequence s request)
      (evicted env victims (asked config request s))) := by
  have ha : Orderly pass (asked config request s) :=
    h.neutral [] (fun _ hm => absurd hm List.not_mem_nil) (List.append_nil _).symm rfl
      (Nat.le_succ _)
  have hw : Orderly pass (evicted env victims (asked config request s)) := by
    refine ha.departed env .preempted addPreempted ?_
    intro row _ hl hp
    exact hv _ hp (of_decide_eq_true hl)
  have hnew : Untouched s.nextId (evicted env victims (asked config request s)).trace := by
    refine untouched_append.mpr ⟨h.future _ (Nat.le_refl _),settleEvents_untouched ?_⟩
    intro hm
    obtain ⟨row,hr,he⟩ := List.mem_map.mp hm
    have hi := h.rows.issued _ (List.mem_map_of_mem (List.mem_filter.mp hr).1)
    exact Nat.ne_of_lt hi he
  have hrows := h.rows.started config env request victims
  generalize evicted env victims (asked config request s)=w at hw hnew hrows
  have ht : (withRow request (newSequence s request) w).trace=
      w.trace++[.entered request s.nextId] := rfl
  have hi : ids (withRow request (newSequence s request) w).running=
      ids w.running++[s.nextId] := by
    rw [ids,withRow,List.map_append]
    rfl
  have hu : ∀ sequence, Untouched sequence w.trace →
      Untouched sequence (withRow request (newSequence s request) w).trace := by
    intro sequence hu
    rw [ht]
    exact untouched_append.mpr ⟨hu,untouched_singleton.mpr id⟩
  refine ⟨?_,hrows,fun sequence hs => hu sequence (hw.future sequence hs),?_,?_,?_,?_⟩
  · rw [ht]
    exact hw.lawful.snoc trivial
  · refine List.nodup_append.mpr ⟨h.pass_distinct,List.nodup_singleton _,?_⟩
    intro sequence hs other ho
    rw [List.mem_singleton.mp ho]
    exact Nat.ne_of_lt (h.rows.issued sequence (h.pass_running sequence hs).1)
  · intro sequence hs
    rw [hi,List.mem_append,List.mem_singleton]
    rcases List.mem_append.mp hs with hs | hs
    · exact ⟨Or.inl (hw.pass_running sequence hs).1,
        hu sequence (hw.pass_running sequence hs).2⟩
    · have he := List.mem_singleton.mp hs
      exact ⟨Or.inr he,hu sequence (he ▸ hnew)⟩
  · intro sequence hs
    rw [hi,List.mem_append] at hs
    rw [ht]
    rcases hs with hs | hs
    · exact (hw.others sequence hs).imp (List.mem_append_left _)
        (fun hp => prefilled_append.mpr (.inl hp))
    · exact Or.inl (List.mem_append_right _ hs)
  · intro sequence hs
    rw [ht,prefilled_append,entered_append,prefilled_singleton,entered_singleton] at hs
    rw [hi,ht,List.mem_append,List.mem_singleton]
    have hcases : (Prefilled sequence w.trace ∨ Entered sequence w.trace) ∨
        s.nextId=sequence := by
      rcases hs with (hp | hf) | (he | hn)
      · exact Or.inl (Or.inl hp)
      · exact hf.elim
      · exact Or.inl (Or.inr he)
      · exact Or.inr hn
    rcases hcases with hs | hn
    · exact (hw.gone sequence hs).imp Or.inl (fun hd => hd.append _)
    · exact Or.inl (Or.inr hn.symm)

/-- A prefill of the pass, after which everything that runs was prefilled. -/
theorem Orderly.prefill {admitted : List SequenceState}
    (h : Orderly (admitted.map SequenceState.sequenceId) s) (env : Env) :
    Orderly [] (prefilledBy env admitted s) := by
  have ht : (prefilledBy env admitted s).trace=s.trace++
      [.prefill (admitted.map SequenceState.sequenceId) (ids s.running)] := rfl
  have hi : ids (prefilledBy env admitted s).running=ids s.running := ids_advanced env _ s.running
  have hp : ∀ sequence∈ids s.running, Prefilled sequence (prefilledBy env admitted s).trace := by
    intro sequence hs
    rw [ht,prefilled_append,prefilled_singleton]
    exact (h.others sequence hs).symm
  refine ⟨?_,h.rows.sublist (hi ▸ List.Sublist.refl _) (Nat.le_refl _),?_,List.nodup_nil,?_,?_,?_⟩
  · rw [ht]
    exact h.lawful.snoc ⟨h.pass_distinct,h.pass_running⟩
  · intro sequence hs
    rw [ht]
    refine untouched_append.mpr ⟨h.future sequence hs,untouched_singleton.mpr ?_⟩
    intro hm
    have hl := h.rows.issued sequence (h.pass_running sequence hm).1
    exact absurd hl (Nat.not_lt.mpr hs)
  · exact fun sequence hs => absurd hs List.not_mem_nil
  · exact fun sequence hs => Or.inr (hp sequence (hi ▸ hs))
  · intro sequence hs
    rw [ht,prefilled_append,entered_append,prefilled_singleton,entered_singleton] at hs
    rw [hi,ht]
    rcases hs with (hs | hs) | (hs | hs)
    · exact (h.gone sequence (.inl hs)).imp id (fun hd => hd.append _)
    · exact Or.inl (h.pass_running sequence hs).1
    · exact (h.gone sequence (.inr hs)).imp id (fun hd => hd.append _)
    · exact hs.elim

/-- A decode step outside an admission pass. -/
theorem Orderly.decode (h : Orderly [] s) (config : BatcherConfig) (env : Env) :
    Orderly [] (decodedBy config env s) := by
  have ht : (decodedBy config env s).trace=s.trace++
      [.decode (ids s.running) (ids s.running)] := rfl
  have hi : ids (decodedBy config env s).running=ids s.running := ids_advanced env _ s.running
  have hp : ∀ sequence∈ids s.running, Prefilled sequence s.trace := fun sequence hs =>
    (h.others sequence hs).resolve_left List.not_mem_nil
  refine ⟨?_,h.rows.sublist (hi ▸ List.Sublist.refl _) (Nat.le_refl _),?_,List.nodup_nil,?_,?_,?_⟩
  · rw [ht]
    exact h.lawful.snoc ⟨rfl,hp⟩
  · intro sequence hs
    rw [ht]
    refine untouched_append.mpr ⟨h.future sequence hs,untouched_singleton.mpr ?_⟩
    intro hm
    exact absurd (h.rows.issued sequence hm) (Nat.not_lt.mpr hs)
  · exact fun sequence hs => absurd hs List.not_mem_nil
  · intro sequence hs
    rw [ht]
    exact Or.inr (prefilled_append.mpr (.inl (hp sequence (hi ▸ hs))))
  · intro sequence hs
    rw [ht,prefilled_append,entered_append,prefilled_singleton,entered_singleton] at hs
    rw [hi,ht]
    refine (h.gone sequence ?_).imp id (fun hd => hd.append _)
    exact hs.imp (fun hs => hs.resolve_right id) (fun hs => hs.resolve_right id)

/-- The sequences the current pass has admitted. -/
def passOf : Phase → List SequenceId
  | .admitting admitted => admitted.map SequenceState.sequenceId
  | .closing admitted => admitted.map SequenceState.sequenceId
  | .prefilling admitted => admitted.map SequenceState.sequenceId
  | _ => []

/-- What the cache says to a request does not depend on how it came to hand. -/
theorem inHand_same {request : Request} {u : Batcher} (hh : InHand env s request u) :
    u.nextId=s.nextId ∧ u.running=s.running ∧
      offerVictims config u request=offerVictims config s request := by
  cases hh with
  | deferred _ => exact ⟨rfl,rfl,rfl⟩
  | read _ _ _ => exact ⟨rfl,rfl,rfl⟩

theorem neutral_extendEvents (answers : Answers) :
    ∀ event∈extendEvents answers, Neutral event := by
  intro event hm
  obtain ⟨answer,_,rfl⟩ := List.mem_map.mp hm
  exact ⟨fun _ => trivial,fun _ => ⟨id,id⟩⟩

/-- An offered request, whatever comes of it. -/
theorem Orderly.offered {request : Request} {admitted : List SequenceState}
    {offer : Bool×List SequenceState}
    (h : Orderly (admitted.map SequenceState.sequenceId) s)
    (hv : ∀ state∈admitted, state.sequenceId∉offerVictims config s request)
    (ho : OfferEffect config env request admitted s offer t) :
    Orderly (offer.2.map SequenceState.sequenceId) t := by
  cases ho with
  | started =>
    rw [List.map_append]
    refine h.started config env request ?_
    intro sequence hs
    obtain ⟨state,hm,rfl⟩ := List.mem_map.mp hs
    exact hv state hm
  | rejected reason _ _ hn =>
    refine h.neutral [.settled (.rejected reason) request none] ?_ rfl rfl (Nat.le_of_lt hn)
    intro event hm
    rw [List.mem_singleton.mp hm]
    exact ⟨fun _ => trivial,fun _ => ⟨nofun,id⟩⟩
  | deferred _ =>
    refine h.neutral [.deferred request] ?_ rfl rfl (Nat.le_succ _)
    intro event hm
    rw [List.mem_singleton.mp hm]
    exact ⟨fun _ => trivial,fun _ => ⟨id,id⟩⟩

theorem Orderly.reserved (h : Orderly [] s) (hr : ReserveEffect env s t) : Orderly [] t := by
  cases hr with
  | unbounded _ => exact h
  | @paid cache left answers _ _ =>
    have ha : Orderly [] (answered answers left s) :=
      h.neutral (extendEvents answers) (neutral_extendEvents answers) rfl rfl (Nat.le_refl _)
    exact ha.departed env .preempted addPreempted (fun _ _ _ => List.not_mem_nil)

/-- A step that evicts nobody from its own pass keeps things in order. -/
theorem Orderly.step (h : Orderly (passOf s.phase) s) (hg : SparesPass config s env)
    (he : StepEffect config env s t) : Orderly (passOf t.phase) t := by
  have hold : ∀ phase, s.phase=phase → Orderly (passOf phase) s := fun _ hp => hp ▸ h
  cases he with
  | full hp _ => exact (hold _ hp).frame rfl rfl rfl
  | emptied hp _ _ _ => exact (hold _ hp).frame rfl rfl rfl
  | sentinel hp _ _ _ => exact (hold _ hp).frame rfl rfl rfl
  | @expired admitted request u hp _ hd hh _ =>
    cases hh with
    | deferred hs =>
      exact absurd (hs.symm.trans hd) (by simp only [reduceCtorEq,not_false_eq_true])
    | read _ _ _ =>
      refine (hold _ hp).neutral [.dequeued request,.settled .expired request none] ?_ ?_ rfl
        (Nat.le_refl _)
      · intro event hm
        rcases List.mem_cons.mp hm with rfl | hm
        · exact ⟨fun _ => trivial,fun _ => ⟨id,id⟩⟩
        · rw [List.mem_singleton.mp hm]
          exact ⟨fun _ => trivial,fun _ => ⟨nofun,id⟩⟩
      · exact List.append_assoc _ _ _
  | @offered admitted request offer u v hp hm hh he ho =>
    have hv := hg _ (offerOf_eq hp hm hh he)
    rw [←(inHand_same hh).2.2] at hv
    have hu : Orderly (admitted.map SequenceState.sequenceId) u := by
      cases hh with
      | deferred _ => exact (hold _ hp).frame rfl rfl rfl
      | read _ _ _ =>
        refine (hold _ hp).neutral [.dequeued request] ?_ rfl rfl (Nat.le_refl _)
        intro event hm
        rw [List.mem_singleton.mp hm]
        exact ⟨fun _ => trivial,fun _ => ⟨id,id⟩⟩
    have hpass : passOf (if offer.1 then .admitting offer.2 else .prefilling offer.2)=
        offer.2.map SequenceState.sequenceId := by
      cases offer.1 <;> rfl
    rw [hpass]
    exact (hu.offered hv ho).frame rfl rfl rfl
  | closed hp => exact (hold _ hp).frame rfl rfl rfl
  | prefilledNothing hp => exact (hold _ hp).frame rfl rfl rfl
  | prefilled hp _ => exact ((hold _ hp).prefill env).frame rfl rfl rfl
  | returned hp _ _ _ => exact (hold _ hp).frame rfl rfl rfl
  | idled hp _ _ => exact (hold _ hp).frame rfl rfl rfl
  | busy hp _ => exact (hold _ hp).frame rfl rfl rfl
  | @crashed e cache left answers hp _ _ =>
    exact (hold _ hp).neutral (extendEvents answers) (neutral_extendEvents answers) rfl rfl
      (Nat.le_refl _)
  | starved hp hr _ => exact (Orderly.reserved (hold _ hp) hr).frame rfl rfl rfl
  | @decoded u hp hr _ =>
    have hd := (Orderly.reserved (hold _ hp) hr).decode config env
    exact (hd.departed env .completed addCompletion (fun _ _ _ => List.not_mem_nil)).frame
      rfl rfl rfl
  | halted _ => exact h

/-- The thread returns with nothing running. -/
theorem idle_step (h : s.phase=.returned → s.running=[]) (he : StepEffect config env s t) :
    t.phase=.returned → t.running=[] := by
  intro ht
  cases he with
  | returned _ hr _ _ => exact hr
  | halted _ => exact h ht
  | @offered admitted request offer u v _ _ _ _ _ =>
    exact absurd ht (by cases offer.1 <;> exact nofun)
  | _ => exact nomatch ht

/-- In every run in which no admission evicts a sequence that the same pass
admitted, the scheduler keeps the runner's protocol. -/
theorem guarded_keepsProtocol
    (h : ((schedulerMachine config).guarded (SparesPass config)).Reaches s) : KeepsProtocol s := by
  have hi : CacheOk s ∧ Orderly (passOf s.phase) s ∧ (s.phase=.returned → s.running=[]) := by
    refine h.invariant (P := fun s => CacheOk s ∧ Orderly (passOf s.phase) s ∧
      (s.phase=.returned → s.running=[])) ?_ ?_
    · intro s hs
      refine ⟨fresh_cacheOk hs,?_⟩
      obtain ⟨cache,rfl,_⟩ := hs
      have hu : ∀ sequence, Untouched sequence [] := fun _ _ hm => absurd hm List.not_mem_nil
      refine ⟨⟨lawful_nil,⟨List.nodup_nil,nofun⟩,fun sequence _ => hu sequence,List.nodup_nil,
        nofun,nofun,?_⟩,nofun⟩
      rintro sequence (⟨event,hm,_⟩ | ⟨event,hm,_⟩) <;> exact absurd hm List.not_mem_nil
    · intro s env t hs ht
      obtain ⟨he,hk⟩ := schedulerStep_effect hs.1 config env
      rw [←ht.2] at he hk
      exact ⟨hk,hs.2.1.step ht.1 he,idle_step hs.2.2 he⟩
  obtain ⟨_,ho,hr⟩ := hi
  refine ⟨ho.lawful,?_⟩
  intro hp sequence hs
  refine (ho.gone sequence hs).resolve_left ?_
  rw [hr hp]
  exact List.not_mem_nil

/-- Every step of a schedule evicts nobody from its own pass. -/
def Spares (config : BatcherConfig) : List Env → Batcher → Bool
  | [],_ => true
  | env::rest,s =>
    decide (SparesPass config s env) && Spares config rest (schedulerStep config env s)

theorem reaches_spares (envs : List Env) : ∀ {s : Batcher},
    ((schedulerMachine config).guarded (SparesPass config)).Reaches s →
      Spares config envs s=true →
        ((schedulerMachine config).guarded (SparesPass config)).Reaches
          (schedule config envs s) := by
  induction envs with
  | nil => exact fun h _ => h
  | cons env rest ih =>
    intro s h hs
    obtain ⟨hg,hr⟩ := Bool.and_eq_true_iff.mp hs
    exact ih (.step h ⟨of_decide_eq_true hg,rfl⟩) hr

/-- One request served, and the shutdown. -/
def servedRun : Batcher :=
  schedule wordConfig [{read := .request (wordRequest "a")},{},{},{},
    {advance := fun _ => ⟨["x"],true,1⟩},{read := .sentinel},{},{},{}] (pooledBatcher 2)

/-- A run that returns with every row dropped. -/
theorem servedRun_keepsProtocol :
    ((schedulerMachine wordConfig).guarded (SparesPass wordConfig)).Reaches servedRun ∧
      servedRun.phase=.returned ∧ Dropped 1 servedRun.trace ∧ KeepsProtocol servedRun := by
  have hr : ((schedulerMachine wordConfig).guarded (SparesPass wordConfig)).Reaches servedRun :=
    reaches_spares _ (.start (pooledBatcher_fresh (by decide))) (by decide +kernel)
  have hk := guarded_keepsProtocol hr
  have hd : servedRun.phase=.returned := by decide +kernel
  have hp : Event.prefill [1] [1]∈servedRun.trace := by decide +kernel
  exact ⟨hr,hd,hk.2 hd 1 (.inl ⟨_,hp,List.mem_cons_self⟩),hk⟩

/-- Two requests admitted in one pass, the second at the cost of the first. -/
def leakedRun : Batcher :=
  schedule wordConfig [{read := .request (wordRequest "a")},
    {read := .request (wordRequest "b")},{},{}] (pooledBatcher 2)

/-- The first of the two is evicted before it is prefilled, and prefilled
when it does not run any more. -/
theorem evicted_before_prefill :
    ¬∀ config : BatcherConfig, (∀ prompt, 1≤config.estimateTokens prompt) →
      ∀ s, (schedulerMachine config).Reaches s → KeepsProtocol s := by
  intro h
  have hr : (schedulerMachine wordConfig).Reaches leakedRun :=
    reaches_schedule wordConfig _ (.start (pooledBatcher_fresh (by decide)))
  have hk := h wordConfig wordConfig_estimates _ hr
  have ht : leakedRun.trace=leakedRun.trace.take 6++.prefill [1,2] [2]::[] := by decide +kernel
  have hp := hk.1 _ _ _ ht
  exact absurd (hp.2 1 List.mem_cons_self).1 (by decide)

end CudaForge.RunnerProtocol
