import CudaForge.FutureRegistry

/-!
# Every returned future is settled

A future is in one place from its registration on: in the registry, in the
hands of a thread or of a sweep, or settled. Whoever sweeps finds the
batcher's event set, so a submission that registers behind a sweep is
refused, and one that was not refused had registered before every sweep.
-/

namespace CudaForge.SettledFutures

open ServingTypes SubmissionQueue ThreadPools TransitionRuns FutureRegistry

variable {σ ε : Type} {B : Backend σ ε} {e e' : Engine σ} {id : String}

/-- The request of a submission that has a future and did not raise. -/
def requestOf : Submission → Option Request
  | .registered request _ => some request
  | .putting request _ => some request
  | .refused request => some request
  | .returned request => some request
  | .calling => none
  | .admitted => none
  | .raised => none

/-- The request of a submission that found the batcher's event clear and was
not refused. -/
def acceptedBy : Submission → Option Request
  | .putting request _ => some request
  | .returned request => some request
  | _ => none

/-- A thread holds this future. -/
def heldBy (id : String) : Completion → ℕ
  | .holding other _ => if other=id then 1 else 0
  | _ => 0

/-- A sweep has this future in hand. -/
def sweptBy (id : String) : Shutdown → ℕ
  | .sweeping rest => rest.count id
  | _ => 0

/-- A shutdown call behind the setting of the batcher's event. -/
def announced : Shutdown → Bool
  | .posting => true
  | .joining => true
  | .stopped => true
  | .waiting => true
  | .sweeping _ => true
  | .returned => true
  | _ => false

/-- A shutdown call behind its sweep of the registry. -/
def swept : Shutdown → Bool
  | .sweeping _ => true
  | .returned => true
  | _ => false

/-- In how many places a future is. -/
def spots (e : Engine σ) (id : String) : ℕ :=
  e.registry.count id+weigh (heldBy id) e.threads+weigh (sweptBy id) e.shutdowns+
    e.settled.count id

theorem acceptedBy_requestOf {submission : Submission} {request : Request}
    (h : acceptedBy submission=some request) : requestOf submission=some request := by
  cases submission with
  | putting => exact h
  | returned => exact h
  | calling => cases h
  | admitted => cases h
  | registered => cases h
  | refused => cases h
  | raised => cases h

theorem swept_announced {shutdown : Shutdown} (h : swept shutdown=true) :
    announced shutdown=true := by
  cases shutdown <;> first | rfl | cases h

/-- What a step does. -/
inductive Effect (B : Backend σ ε) (e : Engine σ) : Engine σ → Prop
  /-- A submission begins. -/
  | begins : Effect B e {e with submissions := e.submissions++[.calling]}
  /-- A submission goes on with the request it has, if any. -/
  | moves {call : ℕ} {old new : Submission} {back : σ} (hc : e.submissions[call]?=some old)
      (hr : requestOf new=requestOf old) (hb : B.stopping e.back=true → B.stopping back=true)
      (ha : ∀ request, acceptedBy new=some request →
        acceptedBy old=some request ∨ B.stopping e.back=false) :
      Effect B e {e.place call new with back := back}
  /-- A submission registers a future. -/
  | registers {call : ℕ} {request : Request} {blocking : Bool}
      (hc : e.submissions[call]?=some .admitted) (hf : request.requestId∉e.issued) :
      Effect B e {e.place call (.registered request blocking) with
        registry := e.registry++[request.requestId]
        issued := e.issued++[request.requestId]}
  /-- A refused submission takes its future back. -/
  | withdraws {call : ℕ} {request : Request} (hc : e.submissions[call]?=some (.refused request)) :
      Effect B e {e.place call .raised with registry := e.registry.erase request.requestId}
  /-- A shutdown call begins. -/
  | calls : Effect B e {e with shutdowns := e.shutdowns++[.calling]}
  /-- A shutdown call goes on before its sweep. -/
  | passes {call : ℕ} {old new : Shutdown} {back : σ} {closed : Bool}
      (hc : e.shutdowns[call]?=some old) (hb : B.stopping e.back=true → B.stopping back=true)
      (ho : swept old=false) (hn : swept new=false)
      (ha : announced new=true → announced old=true ∨ B.stopping back=true) :
      Effect B e {e.pass call new with back := back, closed := closed}
  /-- It sweeps the registry. -/
  | sweeps {call : ℕ} (hc : e.shutdowns[call]?=some .waiting) :
      Effect B e {e.pass call (.sweeping e.registry) with registry := []}
  /-- It settles the next future of its sweep. -/
  | abandons {call : ℕ} {id : String} {rest : List String}
      (hc : e.shutdowns[call]?=some (.sweeping (id::rest))) :
      Effect B e ((e.finish id).pass call (.sweeping rest))
  /-- It returns behind its sweep. -/
  | ends {call : ℕ} (hc : e.shutdowns[call]?=some (.sweeping [])) :
      Effect B e (e.pass call .returned)
  /-- A thread goes on, and has futures to settle. -/
  | works {thread : ℕ} {ids : List String} {back : σ} (hc : e.threads[thread]?=some .resting)
      (hb : B.stopping e.back=true → B.stopping back=true) :
      Effect B e {e.turn thread (begin ids) with back := back}
  /-- A thread takes a future from the registry. -/
  | claims {thread : ℕ} {id : String} {rest : List String}
      (hc : e.threads[thread]?=some (.calling id rest)) (hm : id∈e.registry) :
      Effect B e {e.turn thread (.holding id rest) with registry := e.registry.erase id}
  /-- A thread does not find a future. -/
  | skips {thread : ℕ} {id : String} {rest : List String}
      (hc : e.threads[thread]?=some (.calling id rest)) : Effect B e (e.turn thread (begin rest))
  /-- A thread settles the future it holds. -/
  | settles {thread : ℕ} {id : String} {rest : List String}
      (hc : e.threads[thread]?=some (.holding id rest)) :
      Effect B e ((e.finish id).turn thread (begin rest))

/-- What a shutdown call does next. -/
theorem proceed_effect {call : ℕ} {gaveUp : Bool} {shutdown : Shutdown}
    (hc : e.shutdowns[call]?=some shutdown) (h : e.proceed B call gaveUp shutdown=some e') :
    Effect B e e' := by
  cases shutdown with
  | calling =>
    rw [←Option.some.inj h]
    refine .passes hc id rfl ?_ ?_
    · cases e.closed <;> rfl
    · cases e.closed <;> exact nofun
  | skipped => cases h
  | closing =>
    rw [←Option.some.inj h]
    exact .passes hc id rfl rfl nofun
  | entering =>
    simp only [Engine.proceed] at h
    split at h
    · next hs =>
      rw [←Option.some.inj h]
      exact .passes hc id rfl rfl (fun _ => Or.inr hs)
    · obtain ⟨back,hb,rfl⟩ := Option.map_eq_some_iff.mp h
      exact .passes hc (B.call_stopping _ _ _ hb) rfl rfl nofun
  | announcing =>
    obtain ⟨back,hb,rfl⟩ := Option.map_eq_some_iff.mp h
    exact .passes hc (B.call_stopping _ _ _ hb) rfl rfl
      (fun _ => Or.inr (B.announce_stopping _ _ hb))
  | posting =>
    obtain ⟨back,hb,rfl⟩ := Option.map_eq_some_iff.mp h
    exact .passes hc (B.call_stopping _ _ _ hb) rfl rfl (fun _ => Or.inl rfl)
  | joining =>
    rw [←Option.some.inj h]
    exact .passes hc id rfl rfl (fun _ => Or.inl rfl)
  | stopped =>
    rw [←Option.some.inj h]
    exact .passes hc (B.halt_stopping _) rfl rfl (fun _ => Or.inl rfl)
  | waiting =>
    obtain ⟨_,he⟩ := Option.ite_none_right_eq_some.mp h
    rw [←Option.some.inj he]
    exact .sweeps hc
  | sweeping rest =>
    cases rest with
    | nil =>
      rw [←Option.some.inj h]
      exact .ends hc
    | cons id rest =>
      rw [←Option.some.inj h]
      exact .abandons hc
  | returned => cases h

/-- Every step has one of these effects. -/
theorem step_effect {action : Action ε} (h : e.step B action=some e') : Effect B e e' := by
  cases action with
  | submit =>
    rw [←Option.some.inj h]
    exact .begins
  | readClosed call =>
    simp only [Engine.step] at h
    split at h
    · next hc =>
      rw [←Option.some.inj h]
      refine .moves hc ?_ id ?_
      · cases e.closed <;> rfl
      · cases e.closed <;> exact fun _ ha => nomatch ha
    · cases h
  | overlong call =>
    simp only [Engine.step] at h
    split at h
    · next hc =>
      rw [←Option.some.inj h]
      exact .moves hc rfl id (fun _ ha => nomatch ha)
    · cases h
  | register call request blocking =>
    simp only [Engine.step] at h
    split at h
    · next hc =>
      obtain ⟨hf,he⟩ := Option.ite_none_left_eq_some.mp h
      rw [←Option.some.inj he]
      exact .registers hc hf
    · cases h
  | readEvent call =>
    simp only [Engine.step] at h
    split at h
    · next request blocking hc =>
      split at h
      · rw [←Option.some.inj h]
        exact .moves hc rfl id (fun _ ha => nomatch ha)
      · next hs =>
        obtain ⟨back,hb,rfl⟩ := Option.map_eq_some_iff.mp h
        exact .moves hc rfl (B.call_stopping _ _ _ hb)
          (fun _ _ => Or.inr (Bool.eq_false_iff.mpr hs))
    · cases h
  | put call =>
    simp only [Engine.step] at h
    split at h
    · next request blocking hc =>
      obtain ⟨back,hb,rfl⟩ := Option.map_eq_some_iff.mp h
      exact .moves hc rfl (B.call_stopping _ _ _ hb) (fun _ ha => Or.inl ha)
    · cases h
  | full call =>
    simp only [Engine.step] at h
    split at h
    · next request hc =>
      obtain ⟨back,hb,rfl⟩ := Option.map_eq_some_iff.mp h
      exact .moves hc rfl (B.call_stopping _ _ _ hb) (fun _ ha => nomatch ha)
    · cases h
  | withdraw call =>
    simp only [Engine.step] at h
    split at h
    · next request hc =>
      rw [←Option.some.inj h]
      exact .withdraws hc
    · cases h
  | shutdown =>
    rw [←Option.some.inj h]
    exact .calls
  | proceed call gaveUp =>
    obtain ⟨shutdown,hc,he⟩ := Option.bind_eq_some_iff.mp h
    exact proceed_effect hc he
  | work thread env =>
    simp only [Engine.step] at h
    split at h
    · next hc =>
      obtain ⟨r,hb,rfl⟩ := Option.map_eq_some_iff.mp h
      exact .works hc (B.work_stopping _ _ _ _ hb)
    · cases h
  | claim thread =>
    simp only [Engine.step] at h
    split at h
    · next id rest hc =>
      split at h
      · next hm =>
        rw [←Option.some.inj h]
        exact .claims hc hm
      · rw [←Option.some.inj h]
        exact .skips hc
    · cases h
  | settle thread =>
    simp only [Engine.step] at h
    split at h
    · next id rest hc =>
      rw [←Option.some.inj h]
      exact .settles hc
    · cases h

/-- Every future is in at most one place, and in one while its submission has
not raised. -/
structure Accounted (e : Engine σ) : Prop where
  /-- A future is in no two places. -/
  once : ∀ id, spots e id≤1
  /-- It is nowhere before its request is made. -/
  issued : ∀ id, 0 < spots e id → id∈e.issued
  /-- It stays somewhere while its submission has not raised. -/
  kept : ∀ (i : ℕ) s request, e.submissions[i]?=some s → requestOf s=some request →
    spots e request.requestId=1
  /-- Different submissions have different requests. -/
  distinct : ∀ (i j : ℕ) s t q r, e.submissions[i]?=some s → e.submissions[j]?=some t →
    requestOf s=some q → requestOf t=some r → q.requestId=r.requestId → i=j

/-- A step that makes no request keeps the account when it moves the futures
of the submissions that go on from place to place. -/
theorem Accounted.carried (h : Accounted e) (hle : ∀ id, spots e' id ≤ spots e id)
    (hi : e'.issued=e.issued)
    (hsub : ∀ (i : ℕ) s request, e'.submissions[i]?=some s → requestOf s=some request →
      ∃ t, e.submissions[i]?=some t ∧ requestOf t=some request)
    (hk : ∀ (i : ℕ) s request, e'.submissions[i]?=some s → requestOf s=some request →
      spots e' request.requestId=spots e request.requestId) : Accounted e' := by
  constructor
  · exact fun id => (hle id).trans (h.once id)
  · intro id hp
    rw [hi]
    exact h.issued id (Nat.lt_of_lt_of_le hp (hle id))
  · intro i s request hs hr
    obtain ⟨t,ht,hq⟩ := hsub i s request hs hr
    rw [hk i s request hs hr]
    exact h.kept i t request ht hq
  · intro i j s t q r hs ht hq hr he
    obtain ⟨s',hs',hq'⟩ := hsub i s q hs hq
    obtain ⟨t',ht',hr'⟩ := hsub j t r ht hr
    exact h.distinct i j s' t' q r hs' ht' hq' hr' he

/-- A step that leaves the submissions alone and every future in as many
places. -/
theorem Accounted.shifted (h : Accounted e) (hs : ∀ id, spots e' id=spots e id)
    (hi : e'.issued=e.issued) (hsub : e'.submissions=e.submissions) : Accounted e' := by
  refine h.carried (fun id => (hs id).le) hi ?_ (fun _ _ request _ _ => hs request.requestId)
  intro i s request hc hr
  exact ⟨s,hsub ▸ hc,hr⟩

theorem heldBy_begin (id : String) (ids : List String) : heldBy id (begin ids)=0 := by
  cases ids <;> rfl

theorem sweptBy_zero {shutdown : Shutdown} (h : swept shutdown=false) (id : String) :
    sweptBy id shutdown=0 := by
  cases shutdown <;> first | rfl | cases h

/-- Settling a future that is in another place, and so is not settled. -/
theorem count_finish (other : String) (h : e.settled.count id=0) :
    (e.finish id).settled.count other=e.settled.count other+(if id=other then 1 else 0) := by
  rw [Engine.finish,if_neg (List.count_eq_zero.mp h)]
  simp only [List.count_append,List.count_singleton,beq_iff_eq]

theorem finish_fields (e : Engine σ) (id : String) :
    (e.finish id).registry=e.registry ∧ (e.finish id).threads=e.threads ∧
      (e.finish id).shutdowns=e.shutdowns ∧ (e.finish id).submissions=e.submissions ∧
      (e.finish id).issued=e.issued ∧ (e.finish id).back=e.back := by
  rw [Engine.finish]
  split <;> exact ⟨rfl,rfl,rfl,rfl,rfl,rfl⟩

/-- A submission makes a request. -/
theorem Accounted.registers {call : ℕ} {request : Request} {blocking : Bool} (h : Accounted e)
    (hf : request.requestId∉e.issued) :
    Accounted {e.place call (.registered request blocking) with
      registry := e.registry++[request.requestId]
      issued := e.issued++[request.requestId]} := by
  have hs : ∀ id, spots {e.place call (.registered request blocking) with
      registry := e.registry++[request.requestId]
      issued := e.issued++[request.requestId]} id=
        spots e id+(if request.requestId=id then 1 else 0) := by
    intro id
    simp only [spots,Engine.place,List.count_append,List.count_singleton,beq_iff_eq]
    omega
  have hz : spots e request.requestId=0 :=
    Nat.eq_zero_of_not_pos (fun hp => hf (h.issued _ hp))
  -- Another submission has another request, because this one is new.
  have hne : ∀ (i : ℕ) s q, e.submissions[i]?=some s → requestOf s=some q →
      request.requestId≠q.requestId := by
    intro i s q hi hq he
    have hk := h.kept i s q hi hq
    rw [←he,hz] at hk
    exact absurd hk (by decide)
  constructor
  · intro id
    rw [hs]
    by_cases he : request.requestId=id
    · rw [if_pos he,←he,hz]
    · rw [if_neg he]
      exact h.once id
  · intro id hp
    rw [hs] at hp
    by_cases he : request.requestId=id
    · exact List.mem_append_right _ (List.mem_singleton.mpr he.symm)
    · rw [if_neg he] at hp
      exact List.mem_append_left _ (h.issued id hp)
  · intro i s q hi hq
    rw [hs]
    rcases getElem?_set_cases hi with ⟨_,rfl⟩ | ⟨_,hi⟩
    · rw [←Option.some.inj hq,hz,if_pos rfl]
    · rw [if_neg (hne i s q hi hq)]
      exact h.kept i s q hi hq
  · intro i j s t q r hi hj hq hr he
    rcases getElem?_set_cases hi with ⟨hci,rfl⟩ | ⟨_,hi⟩
    · rcases getElem?_set_cases hj with ⟨hcj,_⟩ | ⟨_,hj⟩
      · exact hci.symm.trans hcj
      · exact absurd (Option.some.inj hq ▸ he) (hne j t r hj hr)
    · rcases getElem?_set_cases hj with ⟨_,rfl⟩ | ⟨_,hj⟩
      · exact absurd (Option.some.inj hr ▸ he.symm) (hne i s q hi hq)
      · exact h.distinct i j s t q r hi hj hq hr he

/-- A refused submission takes its future back. -/
theorem Accounted.withdraws {call : ℕ} {request : Request} (h : Accounted e)
    (hc : e.submissions[call]?=some (.refused request)) :
    Accounted {e.place call .raised with registry := e.registry.erase request.requestId} := by
  have hs : ∀ id, spots {e.place call .raised with
      registry := e.registry.erase request.requestId} id=
        e.registry.count id-(if request.requestId=id then 1 else 0)+
          weigh (heldBy id) e.threads+weigh (sweptBy id) e.shutdowns+e.settled.count id := by
    intro id
    simp only [spots,Engine.place,List.count_erase,beq_iff_eq]
  have hgo : ∀ (i : ℕ) s q, (e.submissions.set call .raised)[i]?=some s → requestOf s=some q →
      e.submissions[i]?=some s ∧ request.requestId≠q.requestId := by
    intro i s q hi hq
    rcases getElem?_set_cases hi with ⟨_,rfl⟩ | ⟨hne,hi⟩
    · cases hq
    · exact ⟨hi,fun he => hne (h.distinct call i _ s request q hc hi rfl hq he)⟩
  refine h.carried (fun id => ?_) rfl ?_ ?_
  · rw [hs]
    simp only [spots]
    omega
  · intro i s q hi hq
    exact ⟨s,(hgo i s q hi hq).1,hq⟩
  · intro i s q hi hq
    rw [hs,if_neg (hgo i s q hi hq).2]
    rfl

/-- Every step keeps the account. -/
theorem Accounted.effect (h : Accounted e) (he : Effect B e e') : Accounted e' := by
  cases he with
  | begins =>
    refine h.carried (fun _ => le_rfl) rfl ?_ (fun _ _ _ _ _ => rfl)
    intro i s request hs hr
    rcases getElem?_snoc hs with hs | ⟨_,rfl⟩
    · exact ⟨s,hs,hr⟩
    · cases hr
  | moves hc hreq hb ha =>
    refine h.carried (fun _ => le_rfl) rfl ?_ (fun _ _ _ _ _ => rfl)
    intro i s request hs hr
    rcases getElem?_set_cases hs with ⟨rfl,rfl⟩ | ⟨_,hs⟩
    · exact ⟨_,hc,hreq ▸ hr⟩
    · exact ⟨s,hs,hr⟩
  | registers hc hf => exact h.registers hf
  | withdraws hc => exact h.withdraws hc
  | calls =>
    refine h.shifted (fun id => ?_) rfl rfl
    simp only [spots,weigh_snoc]
    rfl
  | @passes call old new back closed hc hb ho hn ha =>
    refine h.shifted (fun id => ?_) rfl rfl
    have hw := weigh_set (sweptBy id) new hc
    rw [sweptBy_zero ho,sweptBy_zero hn] at hw
    simp only [spots,Engine.pass]
    omega
  | @sweeps call hc =>
    refine h.shifted (fun id => ?_) rfl rfl
    have hw := weigh_set (sweptBy id) (.sweeping e.registry) hc
    have hz : sweptBy id .waiting=0 := rfl
    have hs : sweptBy id (.sweeping e.registry)=e.registry.count id := rfl
    simp only [spots,Engine.pass,List.count_nil]
    omega
  | @abandons call id rest hc =>
    obtain ⟨hreg,hth,hsh,hsub,hi,_⟩ := finish_fields e id
    refine h.shifted (fun other => ?_) hi hsub
    have hw := weigh_set (sweptBy other) (.sweeping rest) hc
    have hone := h.once id
    have hw' := weigh_set (sweptBy id) (.sweeping rest) hc
    have ho : sweptBy id (.sweeping (id::rest))=rest.count id+1 := List.count_cons_self
    have hr : sweptBy id (.sweeping rest)=rest.count id := rfl
    have hz : e.settled.count id=0 := by
      simp only [spots] at hone
      omega
    have hcount := count_finish other hz
    have ho' : sweptBy other (.sweeping (id::rest))=
        rest.count other+(if id=other then 1 else 0) := by
      simp only [sweptBy,List.count_cons,beq_iff_eq]
    have hr' : sweptBy other (.sweeping rest)=rest.count other := rfl
    simp only [spots,Engine.pass,hreg,hth,hsh]
    omega
  | @ends call hc =>
    refine h.shifted (fun id => ?_) rfl rfl
    have hw := weigh_set (sweptBy id) .returned hc
    have hz : sweptBy id (.sweeping [])=0 := rfl
    have hz' : sweptBy id .returned=0 := rfl
    simp only [spots,Engine.pass]
    omega
  | @works thread ids back hc hb =>
    refine h.shifted (fun id => ?_) rfl rfl
    have hw := weigh_set (heldBy id) (begin ids) hc
    have hz : heldBy id .resting=0 := rfl
    rw [heldBy_begin,hz] at hw
    simp only [spots,Engine.turn]
    omega
  | @claims thread id rest hc hm =>
    refine h.shifted (fun other => ?_) rfl rfl
    have hw := weigh_set (heldBy other) (.holding id rest) hc
    have hz : heldBy other (.calling id rest)=0 := rfl
    have ho : heldBy other (.holding id rest)=if id=other then 1 else 0 := rfl
    have hp := List.count_pos_iff.mpr hm
    simp only [spots,Engine.turn,List.count_erase,beq_iff_eq]
    by_cases he : id=other
    · rw [if_pos he] at ho ⊢
      rw [he] at hp
      omega
    · rw [if_neg he] at ho ⊢
      omega
  | @skips thread id rest hc =>
    refine h.shifted (fun other => ?_) rfl rfl
    have hw := weigh_set (heldBy other) (begin rest) hc
    have hz : heldBy other (.calling id rest)=0 := rfl
    rw [heldBy_begin,hz] at hw
    simp only [spots,Engine.turn]
    omega
  | @settles thread id rest hc =>
    obtain ⟨hreg,hth,hsh,hsub,hi,_⟩ := finish_fields e id
    refine h.shifted (fun other => ?_) hi hsub
    have hw := weigh_set (heldBy other) (begin rest) hc
    have hw' := weigh_set (heldBy id) (begin rest) hc
    have hone := h.once id
    have hh : heldBy id (.holding id rest)=1 := if_pos rfl
    have hz : e.settled.count id=0 := by
      simp only [spots] at hone
      rw [heldBy_begin] at hw'
      omega
    have hcount := count_finish other hz
    have ho : heldBy other (.holding id rest)=if id=other then 1 else 0 := rfl
    rw [heldBy_begin] at hw
    simp only [spots,Engine.turn,hreg,hth,hsh]
    omega

/-- No shutdown call leaves the batcher before the event is set, and behind a
sweep the registry has no future of an accepted submission. -/
structure Ordered (B : Backend σ ε) (e : Engine σ) : Prop where
  stopped : ∀ shutdown∈e.shutdowns, announced shutdown=true → B.stopping e.back=true
  late : (∃ shutdown∈e.shutdowns, swept shutdown=true) → ∀ submission∈e.submissions,
    ∀ request, acceptedBy submission=some request → request.requestId∉e.registry

/-- A step of a thread, which takes at most futures out of the registry. -/
theorem Ordered.carried (h : Ordered B e) (hb : B.stopping e.back=true → B.stopping e'.back=true)
    (hsd : e'.shutdowns=e.shutdowns) (hsub : e'.submissions=e.submissions)
    (hreg : ∀ id, id∈e'.registry → id∈e.registry) : Ordered B e' := by
  constructor
  · exact fun d hm ha => hb (h.stopped d (hsd ▸ hm) ha)
  · intro hs s hm r hr hin
    exact h.late (hsd ▸ hs) s (hsub ▸ hm) r hr (hreg _ hin)

/-- A step of a shutdown call. -/
theorem Ordered.passed {call : ℕ} {new : Shutdown} (h : Ordered B e)
    (hb : B.stopping e.back=true → B.stopping e'.back=true)
    (ha : announced new=true → B.stopping e'.back=true)
    (hsd : e'.shutdowns=e.shutdowns.set call new) (hsub : e'.submissions=e.submissions)
    (hw : swept new=true → e'.registry=[] ∨ ∃ d∈e.shutdowns, swept d=true)
    (hreg : ∀ id, id∈e'.registry → id∈e.registry) : Ordered B e' := by
  constructor
  · intro d hm had
    rw [hsd] at hm
    rcases mem_set_cases hm with rfl | hm
    · exact ha had
    · exact hb (h.stopped d hm had)
  · rintro ⟨d,hm,hd⟩ s hms r hr hin
    rw [hsub] at hms
    rw [hsd] at hm
    rcases mem_set_cases hm with rfl | hm
    · rcases hw hd with he | hs
      · exact absurd (he ▸ hin) List.not_mem_nil
      · exact h.late hs s hms r hr (hreg _ hin)
    · exact h.late ⟨d,hm,hd⟩ s hms r hr (hreg _ hin)

/-- A step of a submission. -/
theorem Ordered.placed {call : ℕ} {old new : Submission} (h : Ordered B e)
    (hc : e.submissions[call]?=some old) (hb : B.stopping e.back=true → B.stopping e'.back=true)
    (ha : ∀ request, acceptedBy new=some request →
      acceptedBy old=some request ∨ B.stopping e.back=false)
    (hsd : e'.shutdowns=e.shutdowns) (hsub : e'.submissions=e.submissions.set call new)
    (hreg : ∀ s∈e.submissions, ∀ r, acceptedBy s=some r →
      r.requestId∈e'.registry → r.requestId∈e.registry) : Ordered B e' := by
  constructor
  · exact fun d hm had => hb (h.stopped d (hsd ▸ hm) had)
  · intro hs s hm r hr hin
    rw [hsd] at hs
    obtain ⟨d,hd,hsw⟩ := hs
    have hstop := h.stopped d hd (swept_announced hsw)
    rw [hsub] at hm
    rcases mem_set_cases hm with rfl | hm
    · rcases ha r hr with hr | hn
      · have hm := List.mem_of_getElem? hc
        exact h.late ⟨d,hd,hsw⟩ old hm r hr (hreg old hm r hr hin)
      · exact absurd (hstop.symm.trans hn) Bool.noConfusion
    · exact h.late ⟨d,hd,hsw⟩ s hm r hr (hreg s hm r hr hin)

/-- Every step keeps the order. -/
theorem Ordered.effect (h : Ordered B e) (ha : Accounted e) (he : Effect B e e') :
    Ordered B e' := by
  cases he with
  | begins =>
    refine ⟨h.stopped,fun hs s hm r hr => ?_⟩
    rcases List.mem_append.mp hm with hm | hm
    · exact h.late hs s hm r hr
    · rw [List.mem_singleton.mp hm] at hr
      cases hr
  | moves hc hr hb hacc => exact h.placed hc hb hacc rfl rfl (fun _ _ _ _ hin => hin)
  | @registers call request blocking hc hf =>
    refine h.placed hc id ?_ rfl rfl (fun s hm r hr hin => ?_)
    · intro _ hr
      cases hr
    rcases List.mem_append.mp hin with hin | hin
    · exact hin
    · obtain ⟨i,hi⟩ := List.getElem?_of_mem hm
      have hk := ha.kept i s r hi (acceptedBy_requestOf hr)
      have hiss := ha.issued r.requestId (hk ▸ Nat.one_pos)
      exact absurd (List.mem_singleton.mp hin ▸ hiss) hf
  | withdraws hc =>
    refine h.placed hc id ?_ rfl rfl (fun _ _ _ _ hin => List.mem_of_mem_erase hin)
    intro _ hr
    cases hr
  | calls =>
    refine ⟨fun d hm had => ?_,fun ⟨d,hm,hd⟩ => ?_⟩
    · rcases List.mem_append.mp hm with hm | hm
      · exact h.stopped d hm had
      · rw [List.mem_singleton.mp hm] at had
        cases had
    · rcases List.mem_append.mp hm with hm | hm
      · exact h.late ⟨d,hm,hd⟩
      · rw [List.mem_singleton.mp hm] at hd
        cases hd
  | passes hc hb ho hn hann =>
    refine h.passed hb (fun had => ?_) rfl rfl (fun hs => ?_) (fun _ hin => hin)
    · exact (hann had).elim (fun hold => hb (h.stopped _ (List.mem_of_getElem? hc) hold)) id
    · exact absurd (hn.symm.trans hs) Bool.noConfusion
  | sweeps hc =>
    exact h.passed id (fun _ => h.stopped _ (List.mem_of_getElem? hc) rfl) rfl rfl
      (fun _ => Or.inl rfl) (fun _ hin => absurd hin List.not_mem_nil)
  | @abandons call id rest hc =>
    obtain ⟨hreg,_,hsh,hsub,_,hbk⟩ := finish_fields e id
    have hm := List.mem_of_getElem? hc
    have hset : ((e.finish id).pass call (.sweeping rest)).shutdowns=
        e.shutdowns.set call (.sweeping rest) := by
      rw [Engine.pass,hsh]
    refine h.passed ?_ ?_ hset hsub (fun _ => Or.inr ⟨_,hm,rfl⟩) ?_
    · exact fun hs => hbk.symm ▸ hs
    · exact fun _ => hbk.symm ▸ h.stopped _ hm rfl
    · exact fun _ hin => hreg ▸ hin
  | ends hc =>
    have hm := List.mem_of_getElem? hc
    exact h.passed id (fun _ => h.stopped _ hm rfl) rfl rfl (fun _ => Or.inr ⟨_,hm,rfl⟩)
      (fun _ hin => hin)
  | works hc hb => exact h.carried hb rfl rfl (fun _ hin => hin)
  | claims hc hm => exact h.carried id rfl rfl (fun _ hin => List.mem_of_mem_erase hin)
  | skips hc => exact h.carried id rfl rfl (fun _ hin => hin)
  | @settles thread id rest hc =>
    obtain ⟨hreg,_,hsh,hsub,_,hbk⟩ := finish_fields e id
    exact h.carried (fun hs => hbk.symm ▸ hs) hsh hsub (fun _ hin => hreg ▸ hin)

/-- A new engine has no futures. -/
theorem fresh_sound (back : σ) (n : ℕ) :
    Accounted {back := back, threads := List.replicate n .resting : Engine σ} ∧
      Ordered B {back := back, threads := List.replicate n .resting} := by
  have hz : ∀ id, spots {back := back, threads := List.replicate n .resting : Engine σ} id=0 := by
    intro id
    have hw : weigh (heldBy id) (List.replicate n .resting)=0 :=
      weigh_zero (fun _ hm => List.eq_of_mem_replicate hm ▸ rfl)
    simp only [spots,hw]
    rfl
  refine ⟨⟨fun id => (hz id).le.trans (Nat.zero_le 1),fun id hp => ?_,
      fun _ _ _ hs => absurd hs (Option.some_ne_none _).symm,
      fun _ _ _ _ _ _ hs => absurd hs (Option.some_ne_none _).symm⟩,
    ⟨fun _ hm => absurd hm List.not_mem_nil,
    fun ⟨_,hm,_⟩ => absurd hm List.not_mem_nil⟩⟩
  exact absurd (hz id) (Nat.ne_of_gt hp)

/-- The account and the order hold in every run. -/
theorem reaches_sound (h : (engineMachine B).Reaches e) : Accounted e ∧ Ordered B e :=
  h.invariant (P := fun e => Accounted e ∧ Ordered B e)
    (fun _ ⟨back,_,he⟩ => he ▸ fresh_sound back B.threads)
    (fun _ _ _ ha hs => ⟨ha.1.effect (step_effect hs),ha.2.effect ha.1 (step_effect hs)⟩)

/-- A thread holds the future and settles it next. -/
def Claimed (e : Engine σ) (id : String) : Prop :=
  ∃ completion∈e.threads, ∃ rest, completion=.holding id rest

/-- A shutdown call that is still running took the future from the registry. -/
def InSweep (e : Engine σ) (id : String) : Prop :=
  ∃ shutdown∈e.shutdowns, ∃ rest, shutdown=.sweeping rest ∧ id∈rest

/-- Once a shutdown call has returned behind its sweep, a returned future is
settled, or held by a thread that settles it next, or in the hands of another
sweep, and it is not in the registry. No future is settled twice. -/
def Settles (e : Engine σ) : Prop :=
  e.settled.Nodup ∧ (.returned∈e.shutdowns → ∀ request, .returned request∈e.submissions →
    (request.requestId∈e.settled ∨ Claimed e request.requestId ∨ InSweep e request.requestId) ∧
      request.requestId∉e.registry)

/-- The thread that holds a future can do nothing else, and its step settles
the future. -/
theorem Claimed.settles (B : Backend σ ε) (h : Claimed e id) : ∃ thread e',
    e.step B (.settle thread)=some e' ∧ id∈e'.settled ∧ e.step B (.claim thread)=none ∧
      ∀ env, e.step B (.work thread env)=none := by
  obtain ⟨completion,hm,rest,rfl⟩ := h
  obtain ⟨thread,ht⟩ := List.getElem?_of_mem hm
  refine ⟨thread,(e.finish id).turn thread (begin rest),?_,?_,?_,fun env => ?_⟩
  · simp only [Engine.step,ht]
  · rw [Engine.turn,Engine.finish]
    split
    · next hs => exact hs
    · exact List.mem_append_right _ List.mem_cons_self
  · simp only [Engine.step,ht]
  · simp only [Engine.step,ht]

theorem claimed_of_weigh (h : 0 < weigh (heldBy id) e.threads) : Claimed e id := by
  obtain ⟨completion,hm,hp⟩ := exists_of_weigh h
  cases completion with
  | holding other rest =>
    have he : other=id := by
      by_contra hn
      have hz : heldBy id (.holding other rest)=0 := if_neg hn
      omega
    exact ⟨_,hm,rest,by rw [he]⟩
  | resting => exact absurd hp (Nat.lt_irrefl 0)
  | calling => exact absurd hp (Nat.lt_irrefl 0)

theorem inSweep_of_weigh (h : 0 < weigh (sweptBy id) e.shutdowns) : InSweep e id := by
  obtain ⟨shutdown,hm,hp⟩ := exists_of_weigh h
  cases shutdown with
  | sweeping rest => exact ⟨_,hm,rest,rfl,List.count_pos_iff.mp hp⟩
  | calling => exact absurd hp (Nat.lt_irrefl 0)
  | skipped => exact absurd hp (Nat.lt_irrefl 0)
  | closing => exact absurd hp (Nat.lt_irrefl 0)
  | entering => exact absurd hp (Nat.lt_irrefl 0)
  | announcing => exact absurd hp (Nat.lt_irrefl 0)
  | posting => exact absurd hp (Nat.lt_irrefl 0)
  | joining => exact absurd hp (Nat.lt_irrefl 0)
  | stopped => exact absurd hp (Nat.lt_irrefl 0)
  | waiting => exact absurd hp (Nat.lt_irrefl 0)
  | returned => exact absurd hp (Nat.lt_irrefl 0)

/-- In every run of an engine over any batcher, no returned future is
stranded. -/
theorem reaches_settles (h : (engineMachine B).Reaches e) : Settles e := by
  obtain ⟨ha,ho⟩ := reaches_sound h
  constructor
  · refine List.nodup_iff_count_le_one.mpr (fun id => ?_)
    have hone := ha.once id
    simp only [spots] at hone
    omega
  · intro hs request hm
    have hreg := ho.late ⟨.returned,hs,rfl⟩ _ hm request rfl
    obtain ⟨i,hi⟩ := List.getElem?_of_mem hm
    have hk := ha.kept i _ request hi rfl
    have hz : e.registry.count request.requestId=0 := List.count_eq_zero.mpr hreg
    refine ⟨?_,hreg⟩
    simp only [spots] at hk
    by_cases hset : request.requestId∈e.settled
    · exact Or.inl hset
    · have hc := List.count_eq_zero.mpr hset
      refine Or.inr ?_
      by_cases hh : 0 < weigh (heldBy request.requestId) e.threads
      · exact Or.inl (claimed_of_weigh hh)
      · exact Or.inr (inSweep_of_weigh (by omega))

end CudaForge.SettledFutures
