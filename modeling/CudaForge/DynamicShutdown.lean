import CudaForge.DynamicBatching

/-!
# Shutting the dynamic batcher down

Three ways to lose something: a request put behind the sentinel that the
collector returns on, a sentinel that does not fit back into the queue, and
a sentinel whose first put times out. Without them every accepted request is
handled or dropped once, and the collector is not left blocked.
-/

namespace CudaForge.DynamicShutdown

open ServingTypes SubmissionQueue DynamicBatching TransitionRuns

variable {config : DynamicConfig} {clock : Clock} {b c : DynamicBatcher}

/-- Once the collector has returned, every accepted request was handed to the
handler in one batch or dropped once. -/
def NothingLost (b : DynamicBatcher) : Prop :=
  b.stage=.returned →
    ((b.handled.flatMap Batch.requests++b.dropped).map unstamped).Perm
      (b.ingress.accepted.map unstamped)

/-- The collector blocks on an empty queue, and no shutdown call is left that
could wake it. -/
def LeftBlocked (b : DynamicBatcher) : Prop :=
  b.stage=.waiting ∧ b.ingress.queue=[] ∧ b.ingress.stopping=true ∧ b.ingress.closing=0 ∧
    b.ingress.announcing=0

/-- The sentinel the thread has read and will put back. -/
def held : Stage → ℕ
  | .draining _ => 1
  | .reposting _ => 1
  | _ => 0

/-- Nothing stands behind a sentinel that the collector returns on and nothing
comes after, and a sentinel that does not fit is not the last. -/
def orderly (config : DynamicConfig) (b : DynamicBatcher) : Action → Bool
  | .caller (.enqueue _) => decide (b.stage≠.returned)
  | .caller .giveUp => decide (b.stage=.returned ∨ 1<sentinels b.ingress+held b.stage)
  | .caller _ => true
  | .thread _ =>
    match b.stage with
    | .waiting => decide (b.ingress.queue.head?=some none → requestsIn b.ingress.queue=[])
    | .reposting _ =>
      decide (b.ingress.queue.length<config.queueCapacity ∨ 0<sentinels b.ingress)
    | _ => true

/-- The requests of the batch that is being formed. -/
def inHand : Stage → List Request
  | .filling requests _ => requests
  | .draining requests => requests
  | .reposting requests => requests
  | .handling batch => batch.requests
  | _ => []

/-- How often a request occurs, stamped or not. -/
def tally (request : Request) (requests : List Request) : ℕ :=
  (requests.map unstamped).count request

theorem tally_append (request : Request) (requests later : List Request) :
    tally request (requests++later)=tally request requests+tally request later := by
  rw [tally,List.map_append,List.count_append]
  rfl

theorem tally_stamped (request other : Request) (clock : Clock) :
    tally request [stamped clock other]=tally request [other] := rfl

/-- The front request of a queue. -/
theorem tally_front (request other : Request) (rest : List (Option Request)) :
    tally request (requestsIn (some other::rest))=
      tally request [other]+tally request (requestsIn rest) :=
  tally_append request [other] (requestsIn rest)

/-- What holds in every interleaving whose steps are orderly. -/
structure Accounted (b : DynamicBatcher) : Prop where
  /-- Every accepted request is in one place, once. -/
  places : ∀ request, tally request b.ingress.accepted=
    tally request (b.handled.flatMap Batch.requests)+tally request b.dropped+
      tally request (inHand b.stage)+tally request (requestsIn b.ingress.queue)
  /-- The thread returned with no request in the queue. -/
  empty : b.stage=.returned → requestsIn b.ingress.queue=[]
  /-- A sentinel is there until the thread has returned. -/
  announced : b.ingress.stopping=true → b.stage=.returned ∨ 0<sentinels b.ingress+held b.stage

/-- A caller's step keeps the account of the requests. -/
theorem caller_places {call : Call} {ingress : Ingress} (h : Accounted b)
    (hg : orderly config b (.caller call)=true)
    (hc : b.ingress.call config.queueCapacity call=some ingress) :
    (∀ request, tally request ingress.accepted=
      tally request (b.handled.flatMap Batch.requests)+tally request b.dropped+
        tally request (inHand b.stage)+tally request (requestsIn ingress.queue)) ∧
    (b.stage=.returned → requestsIn ingress.queue=[]) := by
  rcases call_accepts hc with ⟨ha,hr⟩ | ⟨request,rfl,ha,hr⟩
  · rw [ha,hr]
    exact ⟨h.places,h.empty⟩
  · rw [ha,hr]
    refine ⟨?_,fun hp => absurd hp (of_decide_eq_true hg)⟩
    intro other
    have hp := h.places other
    rw [tally_append,tally_append]
    omega

/-- A caller's step leaves a sentinel behind. -/
theorem caller_announced {call : Call} {ingress : Ingress} (h : Accounted b)
    (hg : orderly config b (.caller call)=true)
    (hc : b.ingress.call config.queueCapacity call=some ingress)
    (hs : ingress.stopping=true) : b.stage=.returned ∨ 0<sentinels ingress+held b.stage := by
  have hb := h.announced
  by_cases hgive : call=.giveUp
  · subst hgive
    obtain ⟨hst,hsn⟩ := giveUp_sentinels hc
    rcases of_decide_eq_true hg with hp | hn
    · exact Or.inl hp
    · right
      omega
  · rcases call_sentinels hc hgive hs with hn | ⟨hst,hsn⟩
    · right
      omega
    · rw [hsn]
      exact hb hst

/-- A request that the thread goes on with or drops is in its hands or
dropped. -/
theorem dropOr_tally (clock : Clock) (request : Request) {kept : Stage} (b : DynamicBatcher)
    (hk : ∀ other, tally other (inHand kept)=
      tally other (inHand b.stage)+tally other [request]) (other : Request) :
    tally other (dropOr clock request kept b).dropped+
      tally other (inHand (dropOr clock request kept b).stage)=
        tally other b.dropped+tally other (inHand b.stage)+tally other [request] := by
  unfold dropOr
  by_cases he : (stamped clock request).expired clock.checkedAt=true
  · rw [if_pos he]
    simp only [tally_append,tally_stamped]
    omega
  · rw [if_neg he]
    simp only [hk]
    omega

/-- Dropping a request or going on with it touches neither the callers' side
nor the batches handed over. -/
theorem dropOr_frame (clock : Clock) (request : Request) (kept : Stage) (b : DynamicBatcher) :
    (dropOr clock request kept b).ingress=b.ingress ∧
      (dropOr clock request kept b).handled=b.handled ∧
      ((dropOr clock request kept b).stage=b.stage ∨
        (dropOr clock request kept b).stage=kept) := by
  unfold dropOr
  split
  · exact ⟨rfl,rfl,.inl rfl⟩
  · exact ⟨rfl,rfl,.inr rfl⟩

/-- The front request of the queue is taken into the batch or dropped. -/
theorem Accounted.take (h : Accounted b) (clock : Clock) {request : Request}
    {rest : List (Option Request)} {kept : Stage} (hq : b.ingress.queue=some request::rest)
    (hk : ∀ other, tally other (inHand kept)=
      tally other (inHand b.stage)+tally other [request])
    (hheld : held kept=held b.stage) (hb : b.stage≠.returned) (hn : kept≠.returned) :
    Accounted (dropOr clock request kept (popped rest b)) := by
  obtain ⟨hi,hh,hst⟩ := dropOr_frame clock request kept (popped rest b)
  have hsame : (popped rest b).stage=b.stage := rfl
  have hne : (dropOr clock request kept (popped rest b)).stage≠.returned := by
    rcases hst with he | he
    · rw [he]
      exact hb
    · rw [he]
      exact hn
  have hd : held (dropOr clock request kept (popped rest b)).stage=held b.stage := by
    rcases hst with he | he
    · rw [he,hsame]
    · rw [he,hheld]
  refine ⟨?_,fun hp => absurd hp hne,?_⟩
  · intro other
    have hp := h.places other
    have ht := dropOr_tally clock request (popped rest b) hk other
    rw [hq,tally_front] at hp
    rw [hi,hh]
    simp only [popped] at ht ⊢
    omega
  · intro hs
    rw [hi] at hs
    have ha := (h.announced hs).resolve_left hb
    rw [hi,hd]
    right
    have hc : sentinelsIn (some request::rest)=sentinelsIn rest := rfl
    simp only [sentinels,hq,hc] at ha
    exact ha

/-- A step of the thread that leaves the queue alone. -/
theorem Accounted.move (h : Accounted b) {stage : Stage} (hn : stage≠.returned)
    (hk : inHand stage=inHand b.stage)
    (ha : b.ingress.stopping=true → 0<sentinels b.ingress+held stage) :
    Accounted {b with stage := stage} := by
  refine ⟨?_,fun hp => absurd hp hn,fun hs => Or.inr (ha hs)⟩
  intro other
  rw [hk]
  exact h.places other

/-- The sentinel at the front of the queue is taken. -/
theorem Accounted.takeSentinel (h : Accounted b) {rest : List (Option Request)} {stage : Stage}
    (hq : b.ingress.queue=none::rest) (hk : inHand stage=inHand b.stage)
    (hn : stage=.returned ∧ requestsIn b.ingress.queue=[] ∨ held stage=1) :
    Accounted {popped rest b with stage := stage} := by
  have hr : requestsIn b.ingress.queue=requestsIn rest := by
    rw [hq]
    rfl
  refine ⟨?_,?_,?_⟩
  · intro other
    have hp := h.places other
    rw [hr] at hp
    rw [hk]
    exact hp
  · intro hp
    rcases hn with ⟨_,he⟩ | hd
    · exact hr ▸ he
    · rw [show stage=.returned from hp] at hd
      exact absurd hd (by decide)
  · intro _
    rcases hn with ⟨he,_⟩ | hd
    · exact Or.inl he
    · right
      simp only [hd]
      omega

/-- A step of the thread keeps the account. -/
theorem Accounted.thread (h : Accounted b) (hg : orderly config b (.thread clock)=true)
    (hs : collectorStep config clock b=some c) : Accounted c := by
  have hann : b.stage≠.returned → b.ingress.stopping=true →
      0<sentinels b.ingress+held b.stage := fun hn hst => (h.announced hst).resolve_left hn
  unfold collectorStep at hs
  unfold orderly at hg
  cases hst : b.stage with
  | waiting =>
    simp only [hst] at hs hg
    unfold waitStep at hs
    cases hq : b.ingress.queue with
    | nil =>
      rw [hq] at hs
      exact absurd hs (by simp only [reduceCtorEq,not_false_eq_true])
    | cons entry rest =>
      rw [hq] at hs
      cases entry with
      | none =>
        rw [←Option.some.inj hs]
        refine h.takeSentinel hq (by rw [hst]; rfl) (.inl ⟨rfl,of_decide_eq_true hg ?_⟩)
        rw [hq]
        rfl
      | some request =>
        rw [←Option.some.inj hs]
        refine h.take clock hq ?_ (by rw [hst]; rfl) (by rw [hst]; intro hs; cases hs)
          (by intro hs; cases hs)
        intro other
        rw [hst]
        exact (Nat.zero_add _).symm
  | filling requests deadline =>
    simp only [hst,Option.some.injEq] at hs
    have hclose : ∀ trigger, Accounted {b with stage := .handling ⟨requests,trigger⟩} := by
      intro trigger
      refine h.move (by intro hs; cases hs) (by rw [hst]; rfl) (fun hx => ?_)
      have ha := hann (by rw [hst]; intro hs; cases hs) hx
      rw [hst] at ha
      exact ha
    unfold fillStep at hs
    rw [←hs]
    split
    · split
      · exact hclose _
      · cases hq : b.ingress.queue with
        | nil => exact hclose _
        | cons entry rest =>
          cases entry with
          | none => exact h.takeSentinel hq (by rw [hst]; rfl) (.inr rfl)
          | some request =>
            refine h.take clock hq ?_ (by rw [hst]; rfl) (by rw [hst]; intro hs; cases hs)
              (by intro hs; cases hs)
            intro other
            rw [hst]
            exact tally_append other requests [stamped clock request]
    · exact hclose _
  | draining requests =>
    simp only [hst,Option.some.injEq] at hs
    have hclose : Accounted {b with stage := .reposting requests} := by
      refine h.move (by intro hs; cases hs) (by rw [hst]; rfl) (fun hx => Nat.succ_pos _)
    unfold drainStep at hs
    rw [←hs]
    split
    · cases hq : b.ingress.queue with
      | nil => exact hclose
      | cons entry rest =>
        cases entry with
        | none => exact h.takeSentinel hq (by rw [hst]; rfl) (.inr rfl)
        | some request =>
          refine h.take clock hq ?_ (by rw [hst]; rfl) (by rw [hst]; intro hs; cases hs)
            (by intro hs; cases hs)
          intro other
          rw [hst]
          exact tally_append other requests [stamped clock request]
    · exact hclose
  | reposting requests =>
    simp only [hst,Option.some.injEq] at hs hg
    unfold repostStep at hs
    rw [←hs]
    by_cases hroom : b.ingress.queue.length<config.queueCapacity
    · rw [if_pos hroom]
      refine ⟨?_,(by intros; contradiction),fun _ => Or.inr ?_⟩
      · intro other
        have hp := h.places other
        have hn : requestsIn [none]=[] := rfl
        rw [hst] at hp
        simp only [popped,requestsIn_append,hn,List.append_nil]
        exact hp
      · have hn : sentinelsIn [none]=1 := rfl
        simp only [popped,sentinels,sentinelsIn_append,hn]
        omega
    · rw [if_neg hroom]
      refine h.move (by intro hs; cases hs) (by rw [hst]; rfl) (fun _ => ?_)
      exact (of_decide_eq_true hg).resolve_left hroom
  | handling batch =>
    simp only [hst,Option.some.injEq] at hs
    rw [←hs]
    refine ⟨?_,(by intros; contradiction),?_⟩
    · intro other
      have hp := h.places other
      have hf : (b.handled++[batch]).flatMap Batch.requests=
          b.handled.flatMap Batch.requests++batch.requests := by
        rw [List.flatMap_append,List.flatMap_singleton]
      have hi : inHand (.handling batch)=batch.requests := rfl
      have hw : tally other (inHand .waiting)=0 := rfl
      rw [hst,hi] at hp
      simp only [hf,tally_append,hw]
      omega
    · intro hx
      have ha := hann (by rw [hst]; intro hs; cases hs) hx
      rw [hst] at ha
      exact Or.inr ha
  | returned =>
    simp only [hst,reduceCtorEq] at hs

/-- In every interleaving whose steps are orderly no accepted request is lost,
and the collector is not left blocked. -/
theorem orderly_keepsAccepted
    (h : ((dynamicMachine config).guarded
      (fun b action => orderly config b action=true)).Reaches b) :
    NothingLost b ∧ ¬LeftBlocked b := by
  have hi : Accounted b := by
    refine h.invariant ?_ ?_
    · intro b hb
      rw [show b={} from hb]
      exact ⟨fun _ => rfl,nofun,nofun⟩
    · intro b action c hb hs
      cases action with
      | caller call =>
        obtain ⟨ingress,hc,hw⟩ := Option.map_eq_some_iff.mp hs.2
        obtain ⟨hp,he⟩ := caller_places hb hs.1 hc
        rw [←hw]
        exact ⟨hp,he,caller_announced (b := b) hb hs.1 hc⟩
      | thread clock => exact hb.thread hs.1 hs.2
  refine ⟨?_,?_⟩
  · intro hr
    refine List.perm_iff_count.mpr ?_
    intro request
    have hp := hi.places request
    rw [hr,hi.empty hr] at hp
    have ha := tally_append request (b.handled.flatMap Batch.requests) b.dropped
    have hz : tally request (inHand .returned)=0 := rfl
    have hn : tally request []=0 := rfl
    simp only [tally] at hp ha hz hn
    omega
  · intro ⟨hw,hq,hs,hc,ha⟩
    rcases hi.announced hs with hr | hn
    · exact absurd (hw.symm.trans hr) (by simp only [reduceCtorEq,not_false_eq_true])
    · simp only [sentinels,hq,hc,ha,hw] at hn
      exact absurd hn (by decide)

theorem narrow_wait : (0 : ℚ)≤1 := by decide

theorem narrow_capacity : 1≤1 := by decide

/-- Batches of one, a queue of one. -/
def narrowConfig : DynamicConfig := ⟨1,1,1,id,Nat.one_pos,narrow_wait,narrow_capacity⟩

/-- A request to generate one token. -/
def plainRequest (name : String) : Request :=
  {requestId := name, prompt := name, generation := GenerationSettings.defaultGeneration,
    enqueuedAt := 0}

/-- One request accepted, handled, and then an orderly shutdown. -/
def orderlyShutdown : List Action :=
  [.caller (.submit (plainRequest "a")),.caller (.enqueue (plainRequest "a")),.thread {},.thread {},
    .caller .shutdown,.caller .announce,.caller .putSentinel,.thread {},.thread {}]

theorem orderlyShutdown_served :
    ∃ b, ((dynamicMachine narrowConfig).guarded
        (fun b action => orderly narrowConfig b action=true)).Reaches b ∧
      b.stage=.returned ∧ b.ingress.accepted=[plainRequest "a"] ∧
      NothingLost b ∧ ¬LeftBlocked b := by
  obtain ⟨b,hr,hb,ha⟩ := Machine.Reaches.replayed (m := dynamicMachine narrowConfig)
    (P := fun b => b.stage=.returned ∧ b.ingress.accepted=[plainRequest "a"])
    (orderly narrowConfig) (fun _ _ _ h => h) orderlyShutdown (.start rfl) (by decide +kernel)
  exact ⟨b,hr,hb,ha,orderly_keepsAccepted hr⟩

/-- A submission that reads the event first and puts behind the sentinel on
which the collector returns. -/
def latePut : List Action :=
  [.caller (.submit (plainRequest "a")),.caller .shutdown,.caller .announce,.caller .putSentinel,
    .thread {},.caller (.enqueue (plainRequest "a"))]

/-- A shutdown whose put of the sentinel times out while the collector is busy. -/
def timedOutShutdown : List Action :=
  [.caller (.submit (plainRequest "a")),.caller (.enqueue (plainRequest "a")),.caller .shutdown,
    .caller .announce,.caller .giveUp,.thread {},.thread {},.thread {}]

/-- The collector waits on, and nobody is left who could wake it. -/
theorem timedOutShutdown_blocks : ∃ b, (dynamicMachine narrowConfig).Reaches b ∧ LeftBlocked b := by
  obtain ⟨b,hr,hb⟩ := Machine.Reaches.replayed (m := dynamicMachine narrowConfig)
    (P := fun b => b.stage=.waiting ∧ b.ingress.queue=[] ∧ b.ingress.stopping=true ∧
      b.ingress.closing=0 ∧ b.ingress.announcing=0) (fun _ _ => true)
    (fun _ _ _ h => h) timedOutShutdown (.start rfl) (by decide +kernel)
  exact ⟨b,hr.of_guarded,hb⟩

/-- The late submission is accepted and neither handled nor dropped. -/
theorem latePut_lost :
    ¬∀ config b, (dynamicMachine config).Reaches b → NothingLost b ∧ ¬LeftBlocked b := by
  intro h
  obtain ⟨b,hr,hb,ha⟩ := Machine.Reaches.replayed (m := dynamicMachine narrowConfig)
    (P := fun b => b.stage=.returned ∧
      ((b.handled.flatMap Batch.requests++b.dropped).map unstamped).length≠
        (b.ingress.accepted.map unstamped).length) (fun _ _ => true)
    (fun _ _ _ h => h) latePut (.start rfl) (by decide +kernel)
  exact ha ((h narrowConfig b hr.of_guarded).1 hb).length_eq

end CudaForge.DynamicShutdown
