import CudaForge.SchedulerEffects

/-!
# No request is lost or settled twice

The ledger of a run: every dequeued request is deferred, running or
settled, once; requests enter the running set in the order they were
dequeued; and the counters add up. It holds between any two steps of the
thread, also in the middle of an admission pass.
-/

namespace CudaForge.SchedulerLedger

open CacheBlocks CacheManager CacheInvariant ServingTypes ContinuousScheduler SchedulerEffects
open TransitionRuns

variable {config : BatcherConfig} {env : Env} {s t : Batcher}

/-- The requests a trace dequeued, in order. -/
def dequeuedOf (trace : List Event) : List Request :=
  trace.filterMap (fun event => match event with
    | .dequeued request => some request
    | _ => none)

/-- The requests that entered the running set, in order. -/
def enteredOf (trace : List Event) : List Request :=
  trace.filterMap (fun event => match event with
    | .entered request _ => some request
    | _ => none)

/-- The requests that were settled, in order. -/
def settledOf (trace : List Event) : List Request :=
  trace.filterMap (fun event => match event with
    | .settled _ request _ => some request
    | _ => none)

/-- Settlements of every kind, as the counters have them. -/
def settlements (stats : ContinuousStats) : ℕ :=
  stats.completions+stats.preempted+stats.expired+stats.rejected

section Traces

variable (trace rest : List Event) (request : Request)

@[simp] theorem dequeuedOf_append :
    dequeuedOf (trace++rest)=dequeuedOf trace++dequeuedOf rest := List.filterMap_append

@[simp] theorem enteredOf_append :
    enteredOf (trace++rest)=enteredOf trace++enteredOf rest := List.filterMap_append

@[simp] theorem settledOf_append :
    settledOf (trace++rest)=settledOf trace++settledOf rest := List.filterMap_append

/-- The settlements of a walk over the running set, and nothing else. -/
theorem settleEvents_ledger (kind : Settlement) (rows : List (Request×SequenceState)) :
    dequeuedOf (rows.flatMap (settleEvents kind))=[] ∧
      enteredOf (rows.flatMap (settleEvents kind))=[] ∧
      settledOf (rows.flatMap (settleEvents kind))=rows.map Prod.fst := by
  induction rows with
  | nil => exact ⟨rfl,rfl,rfl⟩
  | cons row rest ih =>
    obtain ⟨hd,he,hs⟩ := ih
    simp only [List.flatMap_cons,dequeuedOf_append,enteredOf_append,settledOf_append,hd,he,hs,
      List.append_nil]
    exact ⟨rfl,rfl,rfl⟩

/-- The answers of the cache are neutral. -/
theorem extendEvents_ledger (answers : Answers) :
    dequeuedOf (extendEvents answers)=[] ∧ enteredOf (extendEvents answers)=[] ∧
      settledOf (extendEvents answers)=[] := by
  induction answers with
  | nil => exact ⟨rfl,rfl,rfl⟩
  | cons answer rest ih => exact ih

end Traces

/-- The ledger with some requests in the hands of the admission loop. -/
structure Balanced (hand : List Request) (s : Batcher) : Prop where
  /-- Every dequeued request is in one place, once. -/
  places : (dequeuedOf s.trace).Perm
    (hand++s.deferred.toList++s.running.map Prod.fst++settledOf s.trace)
  /-- First come, first served. -/
  order : (enteredOf s.trace++hand++s.deferred.toList).Sublist (dequeuedOf s.trace)
  /-- The counters count the settlements. -/
  counts : (settledOf s.trace).length=settlements s.stats

/-- The ledger reads the slot, the rows, the trace and the counters, and of
the trace only what it dequeued, entered and settled. -/
theorem Balanced.congr {hand : List Request} (h : Balanced hand s) {events : List Event}
    (ht : t.trace=s.trace++events)
    (he : dequeuedOf events=[] ∧ enteredOf events=[] ∧ settledOf events=[])
    (hd : t.deferred=s.deferred) (hr : t.running.map Prod.fst=s.running.map Prod.fst)
    (hs : settlements t.stats=settlements s.stats) : Balanced hand t := by
  obtain ⟨hed,hee,hes⟩ := he
  refine ⟨?_,?_,?_⟩
  · rw [ht,hd,hr,dequeuedOf_append,settledOf_append,hed,hes,List.append_nil,List.append_nil]
    exact h.places
  · rw [ht,hd,enteredOf_append,dequeuedOf_append,hed,hee,List.append_nil,List.append_nil]
    exact h.order
  · rw [ht,hs,settledOf_append,hes,List.append_nil]
    exact h.counts

/-- Giving rows back moves their requests from running to settled. -/
theorem Balanced.departed {hand : List Request} (h : Balanced hand s) (env : Env)
    (kind : Settlement) {count : ContinuousStats → ContinuousStats}
    (hcount : ∀ stats, settlements (count stats)=settlements stats+1)
    (leaves : SequenceState → Bool) : Balanced hand (departed env kind count leaves s) := by
  obtain ⟨hed,hee,hes⟩ :=
    settleEvents_ledger kind (s.running.filter (fun row => leaves row.2))
  have hn : ∀ (n : ℕ) stats, settlements (count^[n] stats)=settlements stats+n := by
    intro n
    induction n with
    | zero => exact fun _ => rfl
    | succ n ih =>
      intro stats
      rw [Function.iterate_succ_apply,ih,hcount]
      omega
  have hp : (s.running.map Prod.fst).Perm
      ((s.running.filter (fun row => !leaves row.2)).map Prod.fst++
        (s.running.filter (fun row => leaves row.2)).map Prod.fst) := by
    rw [←List.map_append]
    exact ((List.filter_append_perm (fun row => leaves row.2) s.running).symm.trans
      List.perm_append_comm).map Prod.fst
  refine ⟨?_,?_,?_⟩
  · simp only [SchedulerEffects.departed,settledRows,dequeuedOf_append,settledOf_append,hed,hes,
      List.append_nil]
    refine h.places.trans ?_
    have hp' := (hp.append_left (hand++s.deferred.toList)).append_right (settledOf s.trace)
    refine hp'.trans ?_
    simp only [List.append_assoc]
    exact ((List.perm_append_comm.append_left _).append_left _).append_left _
  · simp only [SchedulerEffects.departed,settledRows,dequeuedOf_append,enteredOf_append,hed,hee,
      List.append_nil]
    exact h.order
  · simp only [SchedulerEffects.departed,settledRows,settledOf_append,hes,List.length_append,
      List.length_map,hn,h.counts]

theorem Balanced.evicted {hand : List Request} (h : Balanced hand s) (env : Env)
    (victims : List SequenceId) : Balanced hand (evicted env victims s) := by
  refine h.departed env .preempted ?_ _
  intro stats
  simp only [settlements,addPreempted]
  omega

theorem Balanced.retired {hand : List Request} (h : Balanced hand s) (env : Env) :
    Balanced hand (retired env s) := by
  refine h.departed env .completed ?_ _
  intro stats
  simp only [settlements,addCompletion]
  omega

/-- Taking a request in hand, from the slot or from the queue. -/
theorem Balanced.inHand {request : Request} {u : Batcher} (h : Balanced [] s)
    (hh : InHand env s request u) : Balanced [request] u ∧ u.deferred=none := by
  have hp := h.places
  have ho := h.order
  cases hh with
  | deferred hd =>
    rw [hd] at hp ho
    refine ⟨⟨hp,?_,h.counts⟩,rfl⟩
    rw [List.append_nil] at ho
    rw [Option.toList_none,List.append_nil]
    exact ho
  | read hd hr hs =>
    have hed : dequeuedOf [Event.dequeued request]=[request] := rfl
    have hee : enteredOf [Event.dequeued request]=[] := rfl
    have hes : settledOf [Event.dequeued request]=[] := rfl
    rw [hd,Option.toList_none,List.append_nil] at hp ho
    rw [List.append_nil] at ho
    refine ⟨⟨?_,?_,?_⟩,hd⟩
    · rw [dequeuedOf_append,settledOf_append,hd,hed,hes,Option.toList_none,List.append_nil,
        List.append_nil]
      exact List.perm_append_comm.trans (hp.append_left [request])
    · rw [dequeuedOf_append,enteredOf_append,hd,hed,hee,Option.toList_none,List.append_nil,
        List.append_nil]
      exact ho.append (List.Sublist.refl [request])
    · rw [settledOf_append,hes,List.append_nil]
      exact h.counts

/-- A request in hand gets a row. -/
theorem Balanced.withRow {request : Request} (h : Balanced [request] s) (hd : s.deferred=none)
    (state : SequenceState) : Balanced [] (withRow request state s) := by
  have hp := h.places
  have ho := h.order
  have hed : dequeuedOf [Event.entered request state.sequenceId]=[] := rfl
  have hee : enteredOf [Event.entered request state.sequenceId]=[request] := rfl
  have hes : settledOf [Event.entered request state.sequenceId]=[] := rfl
  rw [hd,Option.toList_none,List.append_nil] at hp ho
  refine ⟨?_,?_,?_⟩
  · simp only [SchedulerEffects.withRow,hd,Option.toList_none,List.nil_append,dequeuedOf_append,
      settledOf_append,hed,hes,List.map_append,List.map_singleton,List.append_nil]
    exact hp.trans (List.perm_append_comm.append_right _)
  · simp only [SchedulerEffects.withRow,hd,Option.toList_none,List.append_nil,dequeuedOf_append,
      enteredOf_append,hed,hee]
    exact ho
  · simp only [SchedulerEffects.withRow,settledOf_append,hes,List.append_nil]
    exact h.counts

/-- A request in hand goes to the slot. -/
theorem Balanced.held {request : Request} (h : Balanced [request] s) (hd : s.deferred=none)
    {stats : ContinuousStats} (hs : settlements stats=settlements s.stats)
    (cache : Option KVCacheManager) (next : SequenceId) :
    Balanced [] {s with
      cache := cache
      nextId := next
      stats := stats
      deferred := some request
      trace := s.trace++[.deferred request]} := by
  have hp := h.places
  have ho := h.order
  rw [hd,Option.toList_none,List.append_nil] at hp ho
  have hed : dequeuedOf [Event.deferred request]=[] := rfl
  have hee : enteredOf [Event.deferred request]=[] := rfl
  have hes : settledOf [Event.deferred request]=[] := rfl
  refine ⟨?_,?_,?_⟩
  · rw [dequeuedOf_append,settledOf_append,hed,hes,List.append_nil,List.append_nil]
    exact hp
  · rw [dequeuedOf_append,enteredOf_append,hed,hee,List.append_nil,List.append_nil,List.append_nil]
    exact ho
  · rw [settledOf_append,hes,List.append_nil,hs]
    exact h.counts

/-- A request in hand is settled without a row. -/
theorem Balanced.turnedAway {request : Request} (h : Balanced [request] s)
    (hd : s.deferred=none) (kind : Settlement) {stats : ContinuousStats}
    (hs : settlements stats=settlements s.stats+1) (cache : Option KVCacheManager)
    (next : SequenceId) :
    Balanced [] {s with
      cache := cache
      nextId := next
      stats := stats
      trace := s.trace++[.settled kind request none]} := by
  have hp := h.places
  have ho := h.order
  rw [hd,Option.toList_none,List.append_nil] at hp ho
  have hed : dequeuedOf [Event.settled kind request none]=[] := rfl
  have hee : enteredOf [Event.settled kind request none]=[] := rfl
  have hes : settledOf [Event.settled kind request none]=[request] := rfl
  refine ⟨?_,?_,?_⟩
  · rw [dequeuedOf_append,settledOf_append,hed,hes,hd,Option.toList_none,List.append_nil,
      List.append_nil,List.nil_append]
    refine hp.trans ?_
    rw [List.append_assoc]
    exact List.perm_append_comm.trans (by rw [List.append_assoc])
  · rw [dequeuedOf_append,enteredOf_append,hed,hee,hd,Option.toList_none,List.append_nil,
      List.append_nil,List.append_nil,List.append_nil]
    exact (List.sublist_append_left _ _).trans ho
  · rw [settledOf_append,hes,List.length_append,hs,h.counts]
    rfl

/-- Whatever offering a request comes to, the ledger balances. -/
theorem Balanced.offered {request : Request} {admitted : List SequenceState}
    {offer : Bool×List SequenceState} (h : Balanced [request] s) (hd : s.deferred=none)
    (ho : OfferEffect config env request admitted s offer t) : Balanced [] t := by
  cases ho with
  | started =>
    have ha : Balanced [request] (asked config request s) := ⟨h.places,h.order,h.counts⟩
    exact (ha.evicted env _).withRow hd _
  | rejected reason hr ha hn =>
    refine h.turnedAway hd _ ?_ _ _
    simp only [settlements,addRejection,addRefusal]
    omega
  | deferred hr =>
    have hs : settlements (addRefusal s.stats)=settlements s.stats := rfl
    exact h.held hd hs _ _

theorem Balanced.reserved (h : Balanced [] s) (hr : ReserveEffect env s t) : Balanced [] t := by
  cases hr with
  | unbounded _ => exact h
  | @paid cache left answers hc hx =>
    have ha : Balanced [] (answered answers left s) :=
      h.congr rfl (extendEvents_ledger answers) rfl rfl rfl
    exact ha.evicted env _

/-- Every step keeps the ledger balanced. -/
theorem Balanced.step (h : Balanced [] s) (he : StepEffect config env s t) : Balanced [] t := by
  have hsame : ∀ {u : Batcher}, Balanced [] u → ∀ phase, Balanced [] {u with phase := phase} :=
    fun hu _ => ⟨hu.places,hu.order,hu.counts⟩
  cases he with
  | full _ _ => exact hsame h _
  | emptied _ _ _ _ => exact hsame h _
  | sentinel _ _ _ _ => exact hsame h _
  | expired hp hm hd hh he =>
    obtain ⟨hu,hd'⟩ := h.inHand hh
    refine hsame (hu.turnedAway hd' .expired ?_ _ _) _
    simp only [settlements]
    omega
  | offered hp hm hh _ ho =>
    obtain ⟨hu,hd⟩ := h.inHand hh
    exact hsame (hu.offered hd ho) _
  | closed _ => exact ⟨h.places,h.order,h.counts⟩
  | prefilledNothing _ => exact hsame h _
  | @prefilled admitted hp ha =>
    have hb : Balanced [] (prefilledBy env admitted s) :=
      h.congr rfl ⟨rfl,rfl,rfl⟩ rfl (requests_advanced env _ s.running) rfl
    exact hsame hb _
  | returned _ _ _ _ => exact hsame h _
  | idled _ _ _ => exact hsame h _
  | busy _ _ => exact hsame h _
  | @crashed e cache left answers hp hc hx =>
    have hb : Balanced [] (answered answers left s) :=
      h.congr rfl (extendEvents_ledger answers) rfl rfl rfl
    exact hsame hb _
  | starved hp hr hu => exact hsame (h.reserved hr) _
  | decoded hp hr hu =>
    have hb : Balanced [] (decodedBy config env _) :=
      (h.reserved hr).congr rfl ⟨rfl,rfl,rfl⟩ rfl (requests_advanced env _ _) rfl
    exact hsame (hb.retired env) _
  | halted _ => exact h

/-- The rows in use stay within the batch. -/
theorem rows_step (hm : s.running.length≤config.maxBatch) (he : StepEffect config env s t) :
    t.running.length≤config.maxBatch := by
  have hleaves : ∀ (u : Batcher) kind count leaves,
      (departed env kind count leaves u).running.length≤u.running.length :=
    fun u _ _ _ => List.length_filter_le _ _
  have hreserved : ∀ {u : Batcher}, ReserveEffect env s u →
      u.running.length ≤ s.running.length := by
    intro u hr
    cases hr with
    | unbounded _ => exact Nat.le_refl _
    | paid _ _ => exact hleaves (answered _ _ s) _ _ _
  cases he with
  | @offered admitted request offer u v hp hf hh _ ho =>
    have hu : u.running=s.running := by
      cases hh with
      | deferred _ => rfl
      | read _ _ _ => rfl
    cases ho with
    | started =>
      have hl := hleaves (asked config request u) .preempted addPreempted
        (fun state => decide (state.sequenceId∈offerVictims config u request))
      have ha : (asked config request u).running=s.running := hu
      rw [ha] at hl
      simp only [withRow,List.length_append,List.length_singleton,evicted]
      omega
    | rejected _ _ _ _ => exact hu ▸ hm
    | deferred _ => exact hu ▸ hm
  | expired hp hf hd hh _ =>
    cases hh with
    | deferred _ => exact hm
    | read _ _ _ => exact hm
  | prefilled _ _ => exact (List.length_map _).trans_le hm
  | starved _ hr _ => exact (hreserved hr).trans hm
  | @decoded u hp hr hu =>
    refine (hleaves (decodedBy config env u) .completed addCompletion _).trans ?_
    exact (List.length_map _).trans_le ((hreserved hr).trans hm)
  | full _ _ => exact hm
  | emptied _ _ _ _ => exact hm
  | sentinel _ _ _ _ => exact hm
  | closed _ => exact hm
  | prefilledNothing _ => exact hm
  | returned _ _ _ _ => exact hm
  | idled _ _ _ => exact hm
  | busy _ _ => exact hm
  | crashed _ _ _ => exact hm
  | halted _ => exact hm

/-- Rows have distinct ids, all of them issued. -/
structure RowIds (s : Batcher) : Prop where
  distinct : (ids s.running).Nodup
  issued : ∀ sequence∈ids s.running, sequence<s.nextId

theorem RowIds.sublist (h : RowIds s) (hr : (ids t.running).Sublist (ids s.running))
    (hn : s.nextId≤t.nextId) : RowIds t :=
  ⟨h.distinct.sublist hr,fun sequence hm => (h.issued sequence (hr.subset hm)).trans_le hn⟩

/-- A new row has a new id. -/
theorem RowIds.started (h : RowIds s) (config : BatcherConfig) (env : Env) (request : Request)
    (victims : List SequenceId) : RowIds (withRow request (newSequence s request)
      (evicted env victims (asked config request s))) := by
  have hs : (ids (evicted env victims (asked config request s)).running).Sublist
      (ids s.running) := departed_sublist env .preempted addPreempted _ (asked config request s)
  have hi : ids (withRow request (newSequence s request)
      (evicted env victims (asked config request s))).running=
        ids (evicted env victims (asked config request s)).running++[s.nextId] := by
    rw [ids,withRow,List.map_append]
    rfl
  refine ⟨?_,?_⟩
  · rw [hi,List.nodup_append]
    refine ⟨h.distinct.sublist hs,List.nodup_singleton _,?_⟩
    intro sequence hm other ho
    have hl := h.issued sequence (hs.subset hm)
    rw [List.mem_singleton.mp ho]
    exact Nat.ne_of_lt hl
  · intro sequence hm
    rw [hi,List.mem_append,List.mem_singleton] at hm
    have hn : (withRow request (newSequence s request)
        (evicted env victims (asked config request s))).nextId=s.nextId+1 := rfl
    rw [hn]
    rcases hm with hm | rfl
    · exact (h.issued sequence (hs.subset hm)).trans (Nat.lt_succ_self _)
    · exact Nat.lt_succ_self _

theorem RowIds.reserved (h : RowIds s) (hr : ReserveEffect env s t) : RowIds t := by
  cases hr with
  | unbounded _ => exact h
  | @paid cache left answers hc hx =>
    exact h.sublist (departed_sublist env _ _ _ (answered answers left s)) (Nat.le_refl _)

theorem RowIds.step (h : RowIds s) (he : StepEffect config env s t) : RowIds t := by
  have hsame : ∀ {u : Batcher}, RowIds u → ∀ phase, RowIds {u with phase := phase} :=
    fun hu _ => ⟨hu.distinct,hu.issued⟩
  have hadvanced : ∀ {u v : Batcher} {passed : List SequenceId}, RowIds u →
      v.running=u.running.map (advanceRow env passed) → v.nextId=u.nextId → RowIds v := by
    intro u v passed hu hr hn
    have hi : ids v.running=ids u.running := by rw [hr,ids_advanced]
    exact hu.sublist (hi ▸ List.Sublist.refl _) (Nat.le_of_eq hn.symm)
  cases he with
  | @offered admitted request offer u v hp hf hh _ ho =>
    have hu : RowIds u := by
      cases hh with
      | deferred _ => exact ⟨h.distinct,h.issued⟩
      | read _ _ _ => exact ⟨h.distinct,h.issued⟩
    cases ho with
    | started => exact hsame (hu.started config env request _) _
    | rejected _ _ _ hn => exact ⟨hu.distinct,fun id hm => (hu.issued id hm).trans hn⟩
    | deferred _ =>
      exact ⟨hu.distinct,fun id hm => (hu.issued id hm).trans (Nat.lt_succ_self _)⟩
  | expired _ _ _ hh _ =>
    cases hh with
    | deferred _ => exact ⟨h.distinct,h.issued⟩
    | read _ _ _ => exact ⟨h.distinct,h.issued⟩
  | @prefilled admitted _ _ =>
    have hb : RowIds (prefilledBy env admitted s) := hadvanced h rfl rfl
    exact hsame hb _
  | starved _ hr _ => exact hsame (h.reserved hr) _
  | @decoded u _ hr _ =>
    have hb : RowIds (decodedBy config env u) := hadvanced (h.reserved hr) rfl rfl
    exact hsame (hb.sublist (departed_sublist env _ _ _ _) (Nat.le_refl _)) _
  | full _ _ => exact hsame h _
  | emptied _ _ _ _ => exact hsame h _
  | sentinel _ _ _ _ => exact hsame h _
  | closed _ => exact ⟨h.distinct,h.issued⟩
  | prefilledNothing _ => exact hsame h _
  | returned _ _ _ _ => exact hsame h _
  | idled _ _ _ => exact hsame h _
  | busy _ _ => exact hsame h _
  | crashed _ _ _ => exact ⟨h.distinct,h.issued⟩
  | halted _ => exact h

/-- Between any two steps rows have distinct ids. -/
theorem reaches_rowIds (h : (schedulerMachine config).Reaches s) : RowIds s := by
  refine (reaches_of_effect h ?_ (fun _ _ _ hs he => RowIds.step hs he)).2
  intro s hs
  obtain ⟨cache,rfl,_⟩ := hs
  exact ⟨List.nodup_nil,fun _ hm => absurd hm List.not_mem_nil⟩

/-- Between any two steps of the thread, whatever the queue, the clock, the
runner and the callbacks do: a dequeued request is deferred, running or
settled, and in one of these places once; requests enter the running set in
the order they were dequeued; rows stay within the batch; and the counters
add up to the dequeued requests. -/
theorem reachable_ledger (h : (schedulerMachine config).Reaches s) :
    (dequeuedOf s.trace).Perm
      (s.deferred.toList++s.running.map Prod.fst++settledOf s.trace) ∧
    ((dequeuedOf s.trace).Nodup →
      (s.deferred.toList++s.running.map Prod.fst++settledOf s.trace).Nodup) ∧
    (enteredOf s.trace).Sublist (dequeuedOf s.trace) ∧
    s.running.length≤config.maxBatch ∧
    (dequeuedOf s.trace).length=s.deferred.toList.length+s.running.length+s.stats.completions+
      s.stats.preempted+s.stats.expired+s.stats.rejected := by
  have hi : CacheOk s ∧ Balanced [] s ∧ s.running.length≤config.maxBatch := by
    refine reaches_of_effect (P := fun s => Balanced [] s ∧ s.running.length≤config.maxBatch)
      h ?_ ?_
    · intro s hs
      obtain ⟨cache,rfl,_⟩ := hs
      exact ⟨⟨List.Perm.refl _,List.Sublist.refl _,rfl⟩,Nat.zero_le _⟩
    · intro s env t hs he
      exact ⟨hs.1.step he,rows_step hs.2 he⟩
  obtain ⟨_,hb,hm⟩ := hi
  refine ⟨hb.places,fun hd => (List.Perm.nodup_iff hb.places).mp hd,?_,hm,?_⟩
  · refine List.Sublist.trans ?_ hb.order
    rw [List.append_nil]
    exact List.sublist_append_left _ _
  · rw [hb.places.length_eq,List.nil_append,List.length_append,List.length_append,
      List.length_map,hb.counts,settlements]
    omega

/-- One request is served and retired while the next one starts. -/
theorem one_served_one_running :
    ∃ s, (schedulerMachine ⟨1,4,false,fun _ => 1,by decide,by decide⟩).Reaches s ∧
      s.stats.completions=1 ∧ s.running.length=1 ∧
      (dequeuedOf s.trace).Perm
        (s.deferred.toList++s.running.map Prod.fst++settledOf s.trace) := by
  have hr := reaches_schedule ⟨1,4,false,fun _ => 1,by decide,by decide⟩
    [{read := .request {requestId := "a", prompt := "a", generation := {}, enqueuedAt := 0}},
      {},{},{},{advance := fun _ => ⟨["x"],true,1⟩},
      {read := .request {requestId := "b", prompt := "b", generation := {}, enqueuedAt := 0}}]
    (.start ⟨none,rfl,fun _ h => nomatch h⟩)
  exact ⟨_,hr,by decide +kernel,by decide +kernel,(reachable_ledger hr).1⟩

end CudaForge.SchedulerLedger
