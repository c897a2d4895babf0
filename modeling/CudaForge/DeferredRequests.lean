import CudaForge.AliveSequences

/-!
# Who is deferred, and who is rejected at once

Everybody else's blocks can be reclaimed for a new sequence, so the cache
refuses an offer exactly when the request is larger than the whole pool. No
pressure of the moment is ever the reason. The scheduler rejects such a
request only while nothing is running; otherwise it defers it, and the queue
waits behind it.
-/

namespace CudaForge.DeferredRequests

open ExceptionState CacheBlocks CacheManager CacheInvariant CacheReservation CacheBooks
open CachePlacement CeilDivision ServingTypes ContinuousScheduler SchedulerEffects RunnerProtocol
open AliveSequences TransitionRuns

variable {config : BatcherConfig} {env : Env} {s t : Batcher}

/-- An empty cache of the same size admits the request, under any id. -/
def EmptyAdmits (config : BatcherConfig) (cache : KVCacheManager) (request : Request) : Prop :=
  ∃ empty, KVCacheManager.create cache.totalBlocks cache.blockSize cache.policy=.ok empty ∧
    ∀ sequence, ∃ outcome left, KVCacheManager.admitSequence sequence
      (config.estimateTokens request.prompt) empty=.ok outcome left ∧ outcome.ok=true

/-- The estimated tokens exceed the whole pool. -/
def Oversized (config : BatcherConfig) (cache : KVCacheManager) (request : Request) : Prop :=
  cache.totalBlocks*cache.blockSize<config.estimateTokens request.prompt

/-- Whoever is in the deferred slot would be admitted by an empty cache. -/
def DefersTransient (config : BatcherConfig) (s : Batcher) : Prop :=
  ∀ request cache, s.deferred=some request → s.cache=some cache → EmptyAdmits config cache request

/-- If the step offers an oversized request, it rejects it, defers nobody and
goes on admitting. -/
def RejectsOversized (config : BatcherConfig) (s : Batcher) (env : Env) : Prop :=
  ∀ admitted request cache, offerOf config s env=some (admitted,request) → s.cache=some cache →
    Oversized config cache request →
      (∃ reason, (schedulerStep config env s).trace.getLast?=
        some (.settled (.rejected reason) request none)) ∧
      (schedulerStep config env s).deferred=none ∧
      (schedulerStep config env s).phase=.admitting admitted

/-- If the step offers a request that does not fit the pool, nothing is
running and this pass has admitted nobody. -/
def offersAlone (config : BatcherConfig) (s : Batcher) (env : Env) : Bool :=
  fits config s env || match offerOf config s env with
    | some offer => s.running.isEmpty && offer.1.isEmpty
    | none => true

/-- The cache knows no id that is still to be issued. -/
def KnownIssued (s : Batcher) : Prop :=
  ∀ cache, s.cache=some cache → ∀ sequence∈cache.tables, sequence<s.nextId

/-- A cache that knows no more keeps to the issued ids. -/
theorem KnownIssued.shrink (h : KnownIssued s) (hn : s.nextId≤t.nextId)
    (hc : ∀ left, t.cache=some left → ∃ cache, s.cache=some cache ∧
      ∀ sequence∈left.tables, sequence∈cache.tables) : KnownIssued t := by
  intro left hl sequence hm
  obtain ⟨cache,ho,hk⟩ := hc left hl
  exact (h cache ho sequence (hk sequence hm)).trans_le hn

/-- Nothing of the books is read but the cache and the next id. -/
theorem KnownIssued.congr (h : KnownIssued s) (hc : t.cache=s.cache) (hn : s.nextId≤t.nextId) :
    KnownIssued t :=
  h.shrink hn (fun left hl => ⟨left,hc ▸ hl,fun _ hm => hm⟩)

/-- Giving rows back makes nobody known. -/
theorem KnownIssued.departed (h : KnownIssued s) (hk : CacheOk s) (env : Env) (kind : Settlement)
    (count : ContinuousStats → ContinuousStats) (leaves : SequenceState → Bool) :
    KnownIssued (departed env kind count leaves s) := by
  refine h.shrink (Nat.le_refl _) ?_
  intro left hl
  obtain ⟨cache,hc,hr⟩ := Option.map_eq_some_iff.mp hl
  obtain ⟨total,blockSize,policy,hi⟩ := hk cache hc
  refine ⟨cache,hc,?_⟩
  intro sequence hm
  rw [←hr] at hm
  exact ((releaseEach_booked _ hi).1 sequence |>.mp hm).2

/-- A pass over some sequences makes nobody known, whether or not it returns. -/
theorem extendEach_known {total blockSize : ℕ} {policy : PreemptionPolicy}
    (sequences : List SequenceId) :
    ∀ {cache : KVCacheManager}, PoolInvariant total blockSize policy cache →
      Leaves (extendEach sequences) cache
        (fun left => ∀ sequence∈left.tables, sequence∈cache.tables) := by
  induction sequences with
  | nil => exact fun _ _ hm => hm
  | cons sequence rest ih =>
    intro cache h
    unfold Leaves
    rw [extendEach]
    rcases extend_cases h sequence with ⟨outcome,left,hx,hr,hi⟩ | ⟨_,e,hx⟩
    · have hl := ih hi
      have hb := (reserves_booked hr).known
      unfold Leaves at hl
      rw [bind_ok hx]
      cases hy : extendEach rest left with
      | ok later last =>
        rw [hy] at hl
        rw [bind_ok hy]
        exact fun other hm => (hb other).mp (hl other hm)
      | error e last =>
        rw [hy] at hl
        rw [bind_error hy]
        exact fun other hm => (hb other).mp (hl other hm)
    · rw [bind_error hx]
      exact fun _ hm => hm

/-- The answers of a pass make nobody known. -/
theorem KnownIssued.answered (h : KnownIssued s) (hk : CacheOk s) {cache : KVCacheManager}
    (hc : s.cache=some cache) (answers : Answers) (left : KVCacheManager)
    (hl : ∀ {total blockSize : ℕ} {policy : PreemptionPolicy},
      PoolInvariant total blockSize policy cache → ∀ sequence∈left.tables, sequence∈cache.tables) :
    KnownIssued (answered answers left s) := by
  obtain ⟨total,blockSize,policy,hi⟩ := hk cache hc
  refine h.shrink (Nat.le_refl _) ?_
  intro other ho
  rw [←Option.some.inj ho]
  exact ⟨cache,hc,hl hi⟩

/-- A reservation makes nobody known. -/
theorem KnownIssued.reserved (h : KnownIssued s) (hk : CacheOk s) (hr : ReserveEffect env s t) :
    KnownIssued t ∧ CacheOk t := by
  cases hr with
  | unbounded _ => exact ⟨h,hk⟩
  | @paid cache left answers hc hx =>
    obtain ⟨total,blockSize,policy,hi⟩ := hk cache hc
    have hl := extendEach_leaves (ids s.running) hi
    unfold Leaves at hl
    rw [hx] at hl
    have hak : CacheOk (SchedulerEffects.answered answers left s) :=
      fun other ho => ⟨total,blockSize,policy,Option.some.inj ho ▸ hl⟩
    have ha := h.answered hk hc answers left (fun hi => by
      have hl := extendEach_known (ids s.running) hi
      unfold Leaves at hl
      rwa [hx] at hl)
    exact ⟨ha.departed hak env .preempted addPreempted _,evicted_cacheOk hak env _⟩

/-- An admission makes at most its own sequence known. -/
theorem admit_known {total blockSize : ℕ} {policy : PreemptionPolicy} {cache : KVCacheManager}
    (h : PoolInvariant total blockSize policy cache) {sequence : SequenceId}
    (hn : sequence∉cache.tables) (tokens : ℕ) :
    ∀ other∈(after (.admitSequence sequence tokens) cache).tables,
      other=sequence ∨ other∈cache.tables := by
  intro other hm
  rcases Nat.eq_zero_or_pos tokens with rfl | ht
  · exact Or.inr hm
  · obtain ⟨_,_,hb,_⟩ := admit_booked h hn ht
    exact ((register_booked hn).1 other).mp ((hb.known other).mp hm)

/-- The new id is unknown to the cache. -/
theorem KnownIssued.fresh (h : KnownIssued s) {cache : KVCacheManager} (hc : s.cache=some cache) :
    s.nextId∉cache.tables :=
  fun hm => Nat.lt_irrefl _ (h cache hc _ hm)

/-- An offered request issues its id. -/
theorem KnownIssued.offered {request : Request} {admitted : List SequenceState}
    {offer : Bool×List SequenceState} (h : KnownIssued s) (hk : CacheOk s)
    (ho : OfferEffect config env request admitted s offer t) : KnownIssued t := by
  have ha : KnownIssued (asked config request s) := by
    intro left hl sequence hm
    obtain ⟨cache,hc,hr⟩ := Option.map_eq_some_iff.mp hl
    obtain ⟨total,blockSize,policy,hi⟩ := hk cache hc
    rw [←hr] at hm
    rcases admit_known hi (h.fresh hc) _ sequence hm with he | hm
    · exact he ▸ Nat.lt_succ_self _
    · exact (h cache hc sequence hm).trans (Nat.lt_succ_self _)
  cases ho with
  | started _ =>
    have hd := ha.departed (asked_cacheOk hk config request) env .preempted addPreempted
      (fun state => decide (state.sequenceId∈offerVictims config s request))
    exact hd.congr rfl (Nat.le_refl _)
  | rejected _ _ _ hn _ => exact ha.congr rfl hn
  | deferred _ _ => exact ha.congr rfl (Nat.le_refl _)

/-- Every step keeps the cache to the issued ids. -/
theorem KnownIssued.step (h : KnownIssued s) (hk : CacheOk s) (he : StepEffect config env s t) :
    KnownIssued t := by
  have hsame : ∀ {u : Batcher}, u.cache=s.cache → s.nextId≤u.nextId → KnownIssued u :=
    fun hc hn => h.congr hc hn
  cases he with
  | expired _ _ _ hh _ =>
    cases hh with
    | deferred _ => exact hsame rfl (Nat.le_refl _)
    | read _ _ _ => exact hsame rfl (Nat.le_refl _)
  | @offered admitted request offer u v _ _ hh _ ho =>
    have hu : KnownIssued u ∧ CacheOk u := by
      cases hh with
      | deferred _ => exact ⟨hsame rfl (Nat.le_refl _),hk⟩
      | read _ _ _ => exact ⟨hsame rfl (Nat.le_refl _),hk⟩
    exact (hu.1.offered hu.2 ho).congr rfl (Nat.le_refl _)
  | @crashed e cache left answers _ hc hx =>
    have ha := h.answered hk hc answers left (fun hi => by
      have hl := extendEach_known (ids s.running) hi
      unfold Leaves at hl
      rwa [hx] at hl)
    exact ha.congr rfl (Nat.le_refl _)
  | starved _ hr _ => exact (h.reserved hk hr).1.congr rfl (Nat.le_refl _)
  | @decoded u _ hr _ =>
    obtain ⟨hu,huk⟩ := h.reserved hk hr
    have hd : KnownIssued (decodedBy config env u) := hu.congr rfl (Nat.le_refl _)
    have hdk : CacheOk (decodedBy config env u) := huk
    exact (hd.departed hdk env .completed addCompletion SequenceState.finished).congr rfl
      (Nat.le_refl _)
  | _ => exact hsame rfl (Nat.le_refl _)

/-- In every run the cache knows issued ids only. -/
theorem reaches_knownIssued (h : (schedulerMachine config).Reaches s) :
    CacheOk s ∧ KnownIssued s := by
  refine h.invariant (P := fun s => CacheOk s ∧ KnownIssued s) ?_ ?_
  · intro s hs
    refine ⟨fresh_cacheOk hs,?_⟩
    intro cache hc sequence hm
    obtain ⟨_,rfl,_⟩ := id hs
    rcases ((fresh_alive hs).known cache hc sequence).mp hm with hr | hr
    · exact absurd hr List.not_mem_nil
    · exact absurd hr List.not_mem_nil
  · intro s env t ⟨hk,hn⟩ ht
    obtain ⟨he,hkt⟩ := schedulerStep_effect hk config env
    rw [←ht] at he hkt
    exact ⟨hkt,hn.step hk he⟩

/-- An admission of a new sequence is granted exactly when its tokens fit the
whole pool, whoever holds blocks. -/
theorem admit_ok_iff {total blockSize : ℕ} {policy : PreemptionPolicy} {cache : KVCacheManager}
    (h : PoolInvariant total blockSize policy cache) {sequence : SequenceId}
    (hn : sequence∉cache.tables) (tokens : ℕ) :
    ∃ outcome left, KVCacheManager.admitSequence sequence tokens cache=.ok outcome left ∧
      (outcome.ok=true ↔ tokens≤cache.totalBlocks*cache.blockSize) := by
  rcases Nat.eq_zero_or_pos tokens with rfl | ht
  · exact ⟨{},cache,rfl,iff_of_true rfl (Nat.zero_le _)⟩
  · obtain ⟨outcome,hx,_,hok,_⟩ := admit_booked h hn ht
    rw [ceilDiv_le_iff h.size_pos,←h.totalBlocks_eq,←h.size_eq] at hok
    exact ⟨outcome,_,hx,hok⟩

/-- The cache refuses an offer exactly when the request is oversized. -/
theorem refused_iff (h : KnownIssued s) (hk : CacheOk s) {cache : KVCacheManager}
    (hc : s.cache=some cache) (request : Request) :
    offerGranted config s request=false ↔ Oversized config cache request := by
  obtain ⟨total,blockSize,policy,hi⟩ := hk cache hc
  obtain ⟨outcome,left,hx,hok⟩ :=
    admit_ok_iff hi (h.fresh hc) (config.estimateTokens request.prompt)
  rw [Oversized,←Nat.not_le,←hok,Bool.not_eq_true]
  simp only [offerGranted,hc,hx]

/-- An empty cache of the same size admits whoever is not oversized. -/
theorem emptyAdmits_iff {cache : KVCacheManager} (ht : 0<cache.totalBlocks)
    (hs : 0<cache.blockSize) (request : Request) :
    EmptyAdmits config cache request ↔ ¬Oversized config cache request := by
  obtain ⟨empty,he,hi,htables,_,_,_⟩ := create_invariant ht hs cache.policy
  have hok : ∀ sequence, ∃ outcome left, KVCacheManager.admitSequence sequence
      (config.estimateTokens request.prompt) empty=.ok outcome left ∧
      (outcome.ok=true ↔ ¬Oversized config cache request) := by
    intro sequence
    have hn : sequence∉empty.tables := htables ▸ AList.notMem_empty sequence
    have ha := admit_ok_iff hi hn (config.estimateTokens request.prompt)
    rwa [hi.totalBlocks_eq,hi.size_eq,←Nat.not_lt] at ha
  constructor
  · rintro ⟨empty',he',ha⟩
    obtain ⟨outcome,left,hx,hf⟩ := hok 0
    obtain ⟨outcome',left',hx',hf'⟩ := ha 0
    rw [←Except.ok.inj (he.symm.trans he'),hx] at hx'
    rw [←(EStateM.Result.ok.inj hx').1] at hf'
    exact hf.mp hf'
  · intro hf
    refine ⟨empty,he,?_⟩
    intro sequence
    obtain ⟨outcome,left,hx,hg⟩ := hok sequence
    exact ⟨outcome,left,hx,hg.mpr hf⟩

/-- Only an admission turn offers a request. -/
theorem offerOf_step (hk : CacheOk s) {admitted : List SequenceState} {request : Request}
    (ho : offerOf config s env=some (admitted,request)) :
    s.phase=.admitting admitted ∧ ∃ offer u v, InHand env s request u ∧
      OfferEffect config env request admitted u offer v ∧
      schedulerStep config env s={v with
        phase := if offer.1 then .admitting offer.2 else .prefilling offer.2} := by
  have he := (schedulerStep_effect hk config env).1
  generalize schedulerStep config env s=t at he
  have hno : ∀ {phase : Phase}, s.phase=phase → (∀ rows, phase≠.admitting rows) → False := by
    intro phase hp hne
    unfold offerOf at ho
    cases phase with
    | admitting rows => exact hne rows rfl
    | _ => simp only [hp,reduceCtorEq] at ho
  cases he with
  | @offered rows other offer u v hp hm hh hx hf =>
    rw [offerOf_eq hp hm hh hx] at ho
    obtain ⟨rfl,rfl⟩ := Prod.mk.inj (Option.some.inj ho)
    exact ⟨hp,offer,u,v,hh,hf,rfl⟩
  | full hp hf => simp only [offerOf,hp,if_pos hf,reduceCtorEq] at ho
  | emptied hp hm hd hr =>
    simp only [offerOf,hp,if_neg (Nat.not_le.mpr hm),hd,hr,reduceCtorEq] at ho
  | sentinel hp hm hd hr =>
    simp only [offerOf,hp,if_neg (Nat.not_le.mpr hm),hd,hr,reduceCtorEq] at ho
  | @expired rows other u hp hm hd hh hx =>
    cases hh with
    | deferred hs => exact absurd (hs.symm.trans hd) (by simp only [reduceCtorEq,not_false_eq_true])
    | read _ hr hs =>
      rw [hs] at hx
      simp only [offerOf,hp,if_neg (Nat.not_le.mpr hm),hd,hr,hx,if_true,reduceCtorEq] at ho
  | halted hp =>
    rcases hp with hp | ⟨e,hp⟩
    · exact (hno hp nofun).elim
    · exact (hno hp nofun).elim
  | closed hp => exact (hno hp nofun).elim
  | prefilledNothing hp => exact (hno hp nofun).elim
  | prefilled hp _ => exact (hno hp nofun).elim
  | returned hp _ _ _ => exact (hno hp nofun).elim
  | idled hp _ _ => exact (hno hp nofun).elim
  | busy hp _ => exact (hno hp nofun).elim
  | crashed hp _ _ => exact (hno hp nofun).elim
  | starved hp _ _ => exact (hno hp nofun).elim
  | decoded hp _ _ => exact (hno hp nofun).elim

/-- The batcher once a request is in hand differs in the slot and the trace. -/
theorem inHand_kept {request : Request} {u : Batcher} (hh : InHand env s request u) :
    u.cache=s.cache ∧ u.nextId=s.nextId ∧ u.running=s.running ∧ u.deferred=none := by
  cases hh with
  | deferred _ => exact ⟨rfl,rfl,rfl,rfl⟩
  | read hd _ _ => exact ⟨rfl,rfl,rfl,hd⟩

/-- The offer of a step is not alone exactly when its request is oversized and
something runs or was admitted in this pass. -/
theorem offersAlone_eq_false {admitted : List SequenceState} {request : Request}
    {cache : KVCacheManager} (ho : offerOf config s env=some (admitted,request))
    (hc : s.cache=some cache) :
    offersAlone config s env=false ↔
      Oversized config cache request ∧ (s.running≠[] ∨ admitted≠[]) := by
  rw [Oversized,←Nat.not_le,←not_and_or]
  simp only [offersAlone,fits,ho,hc,Bool.or_eq_false_iff,decide_eq_false_iff_not,
    Bool.and_eq_false_iff,List.isEmpty_eq_false_iff,not_and_or]

/-- A step that offers an oversized request rejects it and goes on exactly
when the request is offered alone; otherwise it defers it. -/
theorem rejectsOversized_iff (h : (schedulerMachine config).Reaches s) (env : Env) :
    RejectsOversized config s env ↔ offersAlone config s env=true := by
  obtain ⟨hk,hn⟩ := reaches_knownIssued h
  constructor
  · intro hr
    by_contra ha
    have ha := Bool.eq_false_iff.mpr ha
    -- a step that does not offer, or has no cache, is never refused
    cases ho : offerOf config s env with
    | none => simp only [offersAlone,ho,Bool.or_true,reduceCtorEq] at ha
    | some found =>
      obtain ⟨admitted,request⟩ := found
      cases hc : s.cache with
      | none => simp only [offersAlone,fits,ho,hc,Bool.true_or,reduceCtorEq] at ha
      | some cache =>
        obtain ⟨hover,hbusy⟩ := (offersAlone_eq_false ho hc).mp ha
        obtain ⟨_,hdef,_⟩ := hr admitted request cache ho hc hover
        obtain ⟨_,offer,u,v,hh,hf,ht⟩ := offerOf_step hk ho
        obtain ⟨hcu,hnu,hru,_⟩ := inHand_kept hh
        have hno := (refused_iff (hn.congr hcu hnu.ge)
          (fun other hx => hk other (hcu ▸ hx)) (hcu.trans hc) request).mpr hover
        rw [ht] at hdef
        cases hf with
        | started hg => exact absurd (hg.symm.trans hno) (by decide)
        | rejected _ hr ha _ _ => exact hbusy.elim (fun hb => hb (hru ▸ hr)) (fun hb => hb ha)
        | deferred _ _ => exact absurd hdef (by simp only [reduceCtorEq,not_false_eq_true])
  · intro ha admitted request cache ho hc hover
    obtain ⟨hp,offer,u,v,hh,hf,ht⟩ := offerOf_step hk ho
    obtain ⟨hcu,hnu,hru,hdu⟩ := inHand_kept hh
    have hno := (refused_iff (hn.congr hcu hnu.ge)
      (fun other hx => hk other (hcu ▸ hx)) (hcu.trans hc) request).mpr hover
    rw [ht]
    cases hf with
    | started hg => exact absurd (hg.symm.trans hno) (by decide)
    | rejected reason _ _ _ _ => exact ⟨⟨reason,List.getLast?_concat⟩,hdu,rfl⟩
    | deferred hb _ =>
      have hf := (offersAlone_eq_false ho hc).mpr ⟨hover,hru ▸ hb⟩
      exact absurd (ha.symm.trans hf) (by decide)

/-- Whoever is offered alone is not deferred. -/
theorem offersAlone_undeferred (hk : CacheOk s) (hn : KnownIssued s) (hd : s.deferred=none)
    (ha : offersAlone config s env=true) (he : StepEffect config env s t) : t.deferred=none := by
  have hreserve : ∀ {u : Batcher}, ReserveEffect env s u → u.deferred=none := by
    intro u hr
    cases hr with
    | unbounded _ => exact hd
    | paid _ _ => exact hd
  cases he with
  | expired _ _ _ hh _ => exact (inHand_kept hh).2.2.2
  | @offered admitted request offer u v hp hm hh hx ho =>
    obtain ⟨hcu,hnu,hru,hdu⟩ := inHand_kept hh
    cases ho with
    | started _ => exact hdu
    | rejected _ _ _ _ _ => exact hdu
    | deferred hb hg =>
      cases hc : s.cache with
      | none =>
        rw [offerGranted,hcu.trans hc] at hg
        cases hg
      | some cache =>
        have hover := (refused_iff (hn.congr hcu hnu.ge)
          (fun other hx => hk other (hcu ▸ hx)) (hcu.trans hc) request).mp hg
        have hf := (offersAlone_eq_false (offerOf_eq hp hm hh hx) hc).mpr ⟨hover,hru ▸ hb⟩
        exact absurd (ha.symm.trans hf) (by decide)
  | @starved u _ hr _ =>
    have hu := hreserve hr
    exact hu
  | @decoded u _ hr _ =>
    have hu := hreserve hr
    exact hu
  | _ => exact hd

/-- In every run whose oversized requests are offered alone nobody is in the
deferred slot whom an empty cache would not admit. A step of any run rejects
the oversized request it offers, and goes on, exactly when it is offered
alone. -/
theorem alone_defersTransient (config : BatcherConfig) :
    (∀ s, ((schedulerMachine config).guarded
      (fun s env => offersAlone config s env=true)).Reaches s → DefersTransient config s) ∧
    ∀ s, (schedulerMachine config).Reaches s → ∀ env,
      (RejectsOversized config s env ↔ offersAlone config s env=true) := by
  refine ⟨?_,fun s h env => rejectsOversized_iff h env⟩
  intro s h
  have hd : (schedulerMachine config).Reaches s ∧ s.deferred=none := by
    refine h.invariant (P := fun s => (schedulerMachine config).Reaches s ∧ s.deferred=none) ?_ ?_
    · intro s hs
      obtain ⟨_,rfl,_⟩ := id hs
      exact ⟨.start hs,rfl⟩
    · intro s env t ⟨hr,hd⟩ ⟨ha,ht⟩
      obtain ⟨hk,hn⟩ := reaches_knownIssued hr
      have he := (schedulerStep_effect hk config env).1
      rw [←ht] at he
      exact ⟨.step hr ht,offersAlone_undeferred hk hn hd ha he⟩
  intro request cache hq
  exact absurd (hd.2.symm.trans hq) (by simp only [reduceCtorEq,not_false_eq_true])

/-- A request that is served, then one larger than the pool on its own. -/
def aloneSteps : List Env :=
  [{read := .request (wordRequest "a")},{},{},{},{advance := fun _ => ⟨["x"],true,1⟩},
    {read := .request (wordRequest "b")}]

/-- After a run that rejects an oversized request at once, nobody is deferred
and the next oversized request is rejected too. -/
theorem aloneRun_defersTransient :
    ∃ s, ((schedulerMachine wordConfig).guarded
      (fun s env => offersAlone wordConfig s env=true)).Reaches s ∧
      s.stats.rejected=1 ∧ DefersTransient wordConfig s ∧
      RejectsOversized wordConfig s {read := .request (wordRequest "b")} := by
  obtain ⟨s,hr,hp,ho⟩ := Machine.Reaches.replayed (m := schedulerMachine wordConfig)
    (P := fun s => s.stats.rejected=1 ∧
      offersAlone wordConfig s {read := .request (wordRequest "b")}=true) (offersAlone wordConfig)
    (fun _ _ _ ht => (Option.some.inj ht).symm) aloneSteps
    (.start (pooledBatcher_fresh Nat.one_pos)) (by decide +kernel)
  exact ⟨s,hr,hp,(alone_defersTransient wordConfig).1 _ hr,
    ((alone_defersTransient wordConfig).2 _ hr.of_guarded _).mpr ho⟩

/-- A pool of one block, a running request of one token, and behind it a
request of two. -/
def blockedRun : Batcher :=
  schedule wordConfig [{read := .request (wordRequest "a")},{read := .request (wordRequest "b")}]
    (pooledBatcher 1)

/-- The oversized request is deferred while another runs. -/
theorem oversized_defers :
    ¬∀ config : BatcherConfig, ∀ s, (schedulerMachine config).Reaches s →
      DefersTransient config s ∧ ∀ env, RejectsOversized config s env := by
  intro h
  have hr : (schedulerMachine wordConfig).Reaches blockedRun :=
    reaches_schedule wordConfig _ (.start (pooledBatcher_fresh (by decide)))
  have hd : blockedRun.deferred=some (blockedRun.deferred.get (by decide +kernel)) :=
    (Option.some_get _).symm
  have hc : blockedRun.cache=some (blockedRun.cache.get (by decide +kernel)) :=
    (Option.some_get _).symm
  have he := (h wordConfig _ hr).1 _ _ hd hc
  rw [emptyAdmits_iff (by decide +kernel) (by decide +kernel)] at he
  exact he (show _<_ by decide +kernel)

end CudaForge.DeferredRequests
