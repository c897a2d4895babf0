import CudaForge.RefusedReservations

/-!
# Which reservations the cache grants

A reservation should fail exactly when the tokens held and asked for together
need more blocks than the pool has, and otherwise be granted in full. The
Python manager does so in every reachable state. The native one does so as
long as the sum of the tokens does not wrap, in a pool whose capacities are
within `size_t`; a sum that wraps is granted and leaves fewer tokens than
before.
-/

namespace CudaForge.ReservationFeasibility

open ExceptionState CacheBlocks CacheManager CeilDivision CacheInvariant CacheReservation
open CachePlacement CacheNative CacheConformance CacheBooks NativeRuns RefusedReservations
open TransitionRuns

variable {total blockSize tokens : ℕ} {policy : PreemptionPolicy} {s t : KVCacheManager}
variable {sequence : SequenceId} {table : SequenceBlockTable} {creating : Bool}

/-- A reservation call of either kind. -/
def reservation (creating : Bool) (sequence : SequenceId) (tokens : ℕ) : CacheCall :=
  if creating then .admitSequence sequence tokens else .extend sequence tokens

/-- The sequences a reply lists as preempted. -/
def preemptedIn : Option CacheReply → List SequenceId
  | some (.outcome outcome) => outcome.preempted
  | some (.reclaimed _) => []
  | some .released => []
  | none => []

/-- With any bound that covers its turns the loop ends alike and enough blocks
are free: it stops by its own condition, having found a victim each turn. -/
def Stops {ε σ : Type} (loop : ℕ → EStateM ε σ (List SequenceId)) (free : σ → ℕ) (needed : ℕ)
    (s : σ) : Prop :=
  ∃ evicted t, (∀ turns, evicted.length≤turns → loop turns s=.ok evicted t) ∧ needed≤free t

/-- The Python manager a reservation works on. -/
def starting (creating : Bool) (sequence : SequenceId) (s : KVCacheManager) : KVCacheManager :=
  if creating then s.register sequence else s

/-- The native manager a reservation works on. -/
def nativeStarting (creating : Bool) (sequence : SequenceId) (u : NativeManager) :
    NativeManager := if creating then u.register sequence else u

/-- A reservation on the Python manager is decided by the blocks its tokens
need. -/
structure PyDecides (total blockSize : ℕ) (creating : Bool) (sequence : SequenceId) (tokens : ℕ)
    (s : KVCacheManager) : Prop where
  /-- It fails exactly when the pool is too small for the tokens. -/
  fails_iff : Refused (answered ((reservation creating sequence tokens).run s)).1 ↔
    total<(s.tokensHeld sequence+tokens) ⌈/⌉ blockSize
  /-- Otherwise the sequence gains the tokens. -/
  grants : ¬Refused (answered ((reservation creating sequence tokens).run s)).1 →
    (answered ((reservation creating sequence tokens).run s)).2.tokensHeld sequence=
      s.tokensHeld sequence+tokens
  /-- The requester is not listed as preempted. -/
  spares : sequence∉preemptedIn (answered ((reservation creating sequence tokens).run s)).1
  /-- Where the eviction loop is entered, it stops by its own condition. -/
  stops : ∀ needed,
    needed≤(starting creating sequence s).freeBlocks+
      (starting creating sequence s).reclaimableBlocks sequence →
    Stops (KVCacheManager.evictLoop needed sequence) KVCacheManager.freeBlocks needed
      (starting creating sequence s)
  /-- Nothing is raised, so no allocation failed. -/
  returns : ∀ e t, (reservation creating sequence tokens).run s≠.error e t

/-- A reservation on the native manager is decided by the blocks its tokens
need. -/
structure NativeDecides (total blockSize : ℕ) (creating : Bool) (sequence : SequenceId)
    (tokens : ℕ) (u : NativeManager) : Prop where
  /-- It fails exactly when the pool is too small for the tokens. -/
  fails_iff : Refused (answered (runNative (reservation creating sequence tokens) u)).1 ↔
    total<(u.tokensHeld sequence+tokens) ⌈/⌉ blockSize
  /-- Otherwise the sequence gains the tokens. -/
  grants : ¬Refused (answered (runNative (reservation creating sequence tokens) u)).1 →
    (answered (runNative (reservation creating sequence tokens) u)).2.tokensHeld sequence=
      u.tokensHeld sequence+tokens
  /-- The requester is not listed as preempted. -/
  spares : sequence∉preemptedIn (answered (runNative (reservation creating sequence tokens) u)).1
  /-- Where the eviction loop is entered, it stops by its own condition. -/
  stops : ∀ needed,
    needed≤word64 ((nativeStarting creating sequence u).freeBlocks+
      (nativeStarting creating sequence u).reclaimableBlocks sequence) →
    Stops (NativeManager.evictLoop needed sequence) NativeManager.freeBlocks needed
      (nativeStarting creating sequence u)
  /-- No allocation failed. -/
  allocates : ∀ t, runNative (reservation creating sequence tokens) u≠
    .error (.runtimeError "KVCacheManager: allocation failed after reservation") t

/-- A run of the eviction loop within reach of the demand reaches it. -/
theorem reachable_demand {needed : ℕ} (h : Partitioned total blockSize policy s)
    (hk : s.tables.lookup sequence=some table)
    (hn : needed ≤ s.freeBlocks+s.reclaimableBlocks sequence) :
    ∃ evicted t, Evicts needed sequence s evicted t ∧ needed≤t.freeBlocks := by
  have ha := h.reclaimable_add_own hk
  obtain ⟨evicted,t,he⟩ := exists_evicts needed sequence s
  exact ⟨evicted,t,he,he.covers h hk (by omega)⟩

/-- The Python loop stops by its own condition. -/
theorem py_stops {needed : ℕ} (h : PoolInvariant total blockSize policy s)
    (hk : s.tables.lookup sequence=some table)
    (hn : needed ≤ s.freeBlocks+s.reclaimableBlocks sequence) :
    Stops (KVCacheManager.evictLoop needed sequence) KVCacheManager.freeBlocks needed s := by
  obtain ⟨evicted,t,he,hf⟩ := reachable_demand h.partitioned hk hn
  refine ⟨evicted,t,?_,hf⟩
  intro turns hl
  obtain ⟨chosen,u,hx,rfl,rfl⟩ := (evictLoop_follows he h turns hl).returns
  exact hx

/-- The native loop stops by its own condition. -/
theorem native_stops {needed : ℕ} (h : Partitioned total blockSize policy s) (hto : total≤2^32)
    (hk : s.tables.lookup sequence=some table)
    (hn : needed≤word64 ((shadow s).freeBlocks+(shadow s).reclaimableBlocks sequence)) :
    Stops (NativeManager.evictLoop needed sequence) NativeManager.freeBlocks needed
      (shadow s) := by
  rw [offers_eq h (by omega) hk] at hn
  obtain ⟨evicted,t,he,hf⟩ := reachable_demand h hk hn
  refine ⟨evicted,shadow t,?_,by rwa [shadow_freeBlocks]⟩
  intro turns hl
  obtain ⟨chosen,u,hx,rfl,rfl⟩ := (evictLoop_shadow he h (idsFit_of_le h hto) turns hl).returns
  exact hx

/-- A reservation on the Python manager, from the state it works on. -/
theorem reservation_reserves (h : PoolInvariant total blockSize policy s)
    (hk : creating=true ∨ sequence∈s.tables) (ht : 0<tokens) :
    PoolInvariant total blockSize policy (starting creating sequence s) ∧
      (starting creating sequence s).tokensHeld sequence=s.tokensHeld sequence ∧
      ∃ outcome t, (reservation creating sequence tokens).run s=.ok (.outcome outcome) t ∧
        Reserves sequence tokens (starting creating sequence s) outcome t := by
  cases creating with
  | true =>
    have hi := register_invariant h sequence
    obtain ⟨outcome,t,hr,hres,_⟩ := (reserve_meets hi (register_lookup s sequence) ht).returns
    have hx : KVCacheManager.admitSequence sequence tokens s=.ok outcome t :=
      (admitSequence_eq sequence ht s).trans hr
    refine ⟨hi,?_,outcome,t,bind_ok hx _,hres⟩
    by_cases hm : sequence∈s.tables
    · exact congrArg (KVCacheManager.tokensHeld · sequence) (if_pos hm)
    · exact (register_booked hm).2 sequence
  | false =>
    have hm : sequence∈s.tables := hk.resolve_left (by decide)
    obtain ⟨table,hf⟩ := Option.isSome_iff_exists.mp (AList.lookup_isSome.mpr hm)
    obtain ⟨outcome,t,hr,hres,_⟩ := (reserve_meets h hf ht).returns
    have hx : KVCacheManager.extend sequence tokens s=.ok outcome t := hr
    exact ⟨h,rfl,outcome,t,bind_ok hx _,hres⟩

/-- Every reservation on the Python manager is decided so. -/
theorem py_decides (h : PoolInvariant total blockSize policy s)
    (hk : creating=true ∨ sequence∈s.tables) (ht : 0<tokens) :
    PyDecides total blockSize creating sequence tokens s := by
  obtain ⟨hi,hheld,outcome,t,hx,hres⟩ := reservation_reserves h hk ht
  have hok := reserves_ok_iff hi hres
  rw [hheld] at hok
  obtain ⟨table,hf,hroom⟩ := reserves_room hi hres
  refine ⟨?_,?_,?_,fun needed hn => py_stops hi hf hn,?_⟩
  · rw [hx]
    change outcome.ok=false ↔ _
    rw [←Bool.not_eq_true,hok,Nat.not_le]
  · rw [hx]
    intro hr
    have hb := (reserves_booked hres).own (Bool.not_eq_false _ ▸ hr)
    rwa [hheld] at hb
  · rw [hx]
    rcases hroom with ⟨_,rfl,_⟩ | ⟨_,mid,hm,_⟩
    · exact List.not_mem_nil
    · exact (hm.facts hi.partitioned).2.2.2.2
  · intro e v he
    rw [hx] at he
    exact absurd he (by simp only [reduceCtorEq,not_false_eq_true])

/-- Neither the sum of the tokens nor the rounding to blocks misleads the
native manager: what it accepts in machine words has a sum within `size_t`,
and what the pool can hold it accepts. -/
def NoWrap (total blockSize : ℕ) (u : NativeManager) (sequence : SequenceId) (tokens : ℕ) : Prop :=
  (Accepts u sequence tokens → u.tokensHeld sequence+tokens<2^64) ∧
    ((u.tokensHeld sequence+tokens) ⌈/⌉ blockSize≤total → Accepts u sequence tokens)

/-- A reservation on the native manager, from the state it works on. -/
theorem reservation_word (h : Partitioned total blockSize policy s) (hto : total≤2^32)
    (hk : creating=true ∨ sequence∈s.tables) (ht : 0<tokens) :
    ∃ start table outcome t, nativeStarting creating sequence (shadow s)=shadow start ∧
      Partitioned total blockSize policy start ∧ start.tables.lookup sequence=some table ∧
      (shadow s).tokensHeld sequence=table.tokens ∧
      (shadow s).blocksHeld sequence=table.blocks.length ∧
      WordReserves total blockSize sequence tokens start outcome t ∧
      runNative (reservation creating sequence tokens) (shadow s)=
        ending overflowError (outcome.map .outcome) (shadow t) := by
  cases creating with
  | true =>
    obtain ⟨outcome,t,hr,hx⟩ := wordAdmit_cases h hto sequence ht
    refine ⟨s.register sequence,_,outcome,t,shadow_register s sequence,
      register_partitioned h sequence,register_lookup s sequence,?_,?_,hr,hx⟩
    · rw [NativeManager.tokensHeld,shadow_lookup]
      cases s.tables.lookup sequence <;> rfl
    · rw [NativeManager.blocksHeld,shadow_lookup]
      cases s.tables.lookup sequence <;> rfl
  | false =>
    have hm : sequence∈s.tables := hk.resolve_left (by decide)
    obtain ⟨table,hf⟩ := Option.isSome_iff_exists.mp (AList.lookup_isSome.mpr hm)
    obtain ⟨outcome,t,hr,hx⟩ := wordExtend_cases h hto hf ht
    refine ⟨s,table,outcome,t,rfl,h,hf,?_,?_,hr,hx⟩
    · rw [NativeManager.tokensHeld,shadow_lookup,hf]
    · rw [NativeManager.blocksHeld,shadow_lookup,hf]

/-- What a native reservation says of its table: it is granted exactly when
the blocks are there and the tokens do not overflow them, then it leaves the
word of their sum, and the requester is never preempted. -/
theorem wordReserves_facts (h : Partitioned total blockSize policy s)
    (hk : s.tables.lookup sequence=some table) {outcome : Option AdmissionOutcome}
    (hr : WordReserves total blockSize sequence tokens s outcome t) :
    (¬Refused (outcome.map .outcome) ↔
      table.blocks.length+wordNeed blockSize table.tokens table.blocks.length tokens≤total ∧
        ¬Overflows blockSize table
          (wordNeed blockSize table.tokens table.blocks.length tokens) tokens) ∧
    (¬Refused (outcome.map .outcome) →
      (shadow t).tokensHeld sequence=word64 (table.tokens+tokens)) ∧
    sequence∉preemptedIn (outcome.map .outcome) := by
  cases hr with
  | refused hk' hn =>
    rw [hk,Option.some.injEq] at hk'
    subst hk'
    rw [additional_word h hk] at hn
    refine ⟨iff_of_false (fun hr => hr rfl) ?_,fun hr => absurd rfl hr,List.not_mem_nil⟩
    rintro ⟨hle,_⟩
    omega
  | @served _ outcome _ hk' hn hm ho =>
    rw [hk,Option.some.injEq] at hk'
    subst hk'
    obtain ⟨_,_,_,hok,hspared⟩ := hm.facts h
    rw [additional_word h hk] at hn ho
    have hgranted : ¬outcome.ok=false := by rw [hok]; decide
    refine ⟨iff_of_true hgranted ⟨hn,ho⟩,?_,hspared⟩
    intro _
    rw [NativeManager.tokensHeld,shadow_lookup,wordGranted,granted,AList.lookup_insert]
    rfl
  | overflowed hk' hn hm ho =>
    rw [hk,Option.some.injEq] at hk'
    subst hk'
    rw [additional_word h hk] at ho
    exact ⟨iff_of_false (fun hr => hr trivial) (fun hf => hf.2 ho),fun hr => absurd trivial hr,
      List.not_mem_nil⟩

/-- The native manager decides a reservation by the blocks its tokens need
exactly when no machine word misleads it. -/
theorem native_decides_iff (h : Partitioned total blockSize policy s) (hto : total≤2^32)
    (hk : creating=true ∨ sequence∈s.tables) (ht : 0<tokens) :
    NativeDecides total blockSize creating sequence tokens (shadow s) ↔
      NoWrap total blockSize (shadow s) sequence tokens := by
  obtain ⟨start,table,outcome,t,hstart,hp,hf,hheld,hown,hr,hx⟩ := reservation_word h hto hk ht
  obtain ⟨hgranted,hword,hspared⟩ := wordReserves_facts hp hf hr
  have hacc : Accepts (shadow s) sequence tokens ↔ ¬Refused (outcome.map .outcome) := by
    have hbs : (shadow s).blockSize=blockSize := h.size_eq
    have htot : (shadow s).allocator.total=total := h.totalBlocks_eq
    rw [hgranted,Accepts,hheld,hown,hbs,htot,Overflows,Nat.not_lt]
  have hans : answered (runNative (reservation creating sequence tokens) (shadow s))=
      (outcome.map .outcome,shadow t) := by rw [hx,answered_ending]
  constructor
  · intro hd
    have hfails := hd.fails_iff
    have hgrants := hd.grants
    rw [hans] at hfails hgrants
    constructor
    · intro ha
      have hg := hgrants (hacc.mp ha)
      rw [hword (hacc.mp ha),←hheld] at hg
      rw [←hg]
      exact Nat.mod_lt _ (by omega)
    · intro hle
      exact hacc.mpr (fun hr => absurd (hfails.mp hr) (Nat.not_lt.mpr hle))
  · rintro ⟨hsum,hholds⟩
    refine ⟨?_,?_,?_,?_,?_⟩
    · rw [hans]
      constructor
      · intro hr
        by_contra hle
        exact hacc.mp (hholds (Nat.le_of_not_lt hle)) hr
      · intro hlt
        by_contra hr
        have ha := hacc.mpr hr
        obtain ⟨hle,hover⟩ := hgranted.mp hr
        have hw := hsum ha
        rw [hheld] at hw hlt
        rw [Overflows,Nat.not_lt,word64_of_lt hw] at hover
        -- the capacity of some blocks of the pool covers the tokens
        have hcov := (ceilDiv_le_iff h.size_pos _ _).mpr (hover.trans (Nat.mod_le _ _))
        omega
    · rw [hans]
      intro hr
      have hw := hsum (hacc.mpr hr)
      rw [hheld] at hw ⊢
      rw [hword hr,word64_of_lt hw]
    · rw [hans]
      exact hspared
    · rw [hstart]
      exact fun needed hn => native_stops hp hto hf hn
    · intro v he
      rw [hx] at he
      cases outcome with
      | none => exact absurd he (by simp [ending,overflowError])
      | some outcome => exact absurd he (by simp only [Option.map_some,ending,reduceCtorEq,
          not_false_eq_true])

/-- A sequence of the native manager has no more blocks than the pool, and
they cover its tokens. -/
theorem shadow_covers (h : Partitioned total blockSize policy s) (hc : Covered blockSize s)
    (sequence : SequenceId) : (shadow s).blocksHeld sequence≤total ∧
      (shadow s).tokensHeld sequence≤(shadow s).blocksHeld sequence*blockSize := by
  rw [NativeManager.blocksHeld,NativeManager.tokensHeld,shadow_lookup]
  cases hk : s.tables.lookup sequence with
  | none => exact ⟨Nat.zero_le _,Nat.zero_le _⟩
  | some table =>
    have ha := h.reclaimable_add_own hk
    exact ⟨by dsimp only; omega,(hc sequence table hk).1⟩

/-- Where every capacity is a `size_t`, only the sum of the tokens can wrap. -/
theorem noWrap_iff (h : Partitioned total blockSize policy s) (hc : Covered blockSize s)
    (hfit : (total+1)*blockSize≤2^64) (ht : tokens<2^64) :
    NoWrap total blockSize (shadow s) sequence tokens ↔
      (shadow s).tokensHeld sequence+tokens<2^64 := by
  have hbs : (shadow s).blockSize=blockSize := h.size_eq
  have htot : (shadow s).allocator.total=total := h.totalBlocks_eq
  have hown := shadow_covers h hc sequence
  unfold NoWrap Accepts
  rw [hbs,htot]
  constructor
  · rintro ⟨hsum,_⟩
    by_contra hw
    obtain ⟨hz,_,hle⟩ := wordNeed_wraps h.size_pos hfit hown.1 hown.2 ht (Nat.le_of_not_lt hw)
    refine hw (hsum ?_)
    dsimp only
    rw [hz]
    exact ⟨hown.1,hle⟩
  · intro hw
    refine ⟨fun _ => hw,?_⟩
    intro hle
    obtain ⟨hadd,hcap⟩ := wordNeed_fits h.size_pos hfit hown.1 hle
    dsimp only
    exact ⟨by rw [hadd]; exact Nat.max_le.mpr ⟨hown.1,hle⟩,hcap⟩

/-- In every reachable Python manager a reservation is decided by the blocks
its tokens need. In a reachable native one, over block ids that fit their
type, it is exactly when no machine word misleads it; where one block more
than the pool still has a capacity within `size_t`, that is when the sum of
the tokens is a `size_t`. -/
theorem reservation_decided_iff (total blockSize : ℕ) (policy : PreemptionPolicy) :
    (∀ s, (cacheMachine total blockSize policy).Reaches s → ∀ creating sequence tokens, 0<tokens →
      creating=true ∨ sequence∈s.tables →
      PyDecides total blockSize creating sequence tokens s) ∧
    (total≤2^32 → ∀ u, (nativeMachine total blockSize policy).Reaches u →
      ∀ creating sequence tokens, 0<tokens → tokens<2^64 → creating=true ∨ sequence∈u.tables →
      (NativeDecides total blockSize creating sequence tokens u ↔
        NoWrap total blockSize u sequence tokens) ∧
      ((total+1)*blockSize≤2^64 →
        (NoWrap total blockSize u sequence tokens ↔ u.tokensHeld sequence+tokens<2^64))) := by
  refine ⟨fun s hs creating sequence tokens ht hk => py_decides (reaches_invariant hs) hk ht,?_⟩
  intro hto u hu creating sequence tokens ht hw hk
  obtain ⟨s,rfl,h,hc⟩ := reaches_shadow hto hu
  exact ⟨native_decides_iff h hto hk ht,fun hfit => noWrap_iff h hc hfit hw⟩

/-- Seven tokens for a new sequence of either new manager. -/
theorem seven_decided :
    PyDecides 4 2 true 1 7 freshPy ∧ NativeDecides 4 2 true 1 7 freshNative := by
  have hc := reservation_decided_iff 4 2 .newest
  have hn := hc.2 (by decide) freshNative (.start rfl) true 1 7 (by decide) (by decide)
    (Or.inl rfl)
  exact ⟨hc.1 freshPy (.start rfl) true 1 7 (by decide) (Or.inl rfl),
    hn.1.mpr ((hn.2 (by decide)).mpr (by decide +kernel))⟩

/-- The native manager that holds two tokens of one sequence. -/
def twoHeld : NativeManager := nativeAfter (.admitSequence 1 2) freshNative

/-- Asked for `2^64-1` tokens more than its two, the native manager admits the
sequence and leaves it with one. -/
theorem wrapped_extension_granted :
    (nativeMachine 4 2 .newest).Reaches twoHeld ∧ twoHeld.tokensHeld 1=2 ∧
    (answered (runNative (.extend 1 (2^64-1)) twoHeld)).1=some (.outcome ⟨.admitted,[]⟩) ∧
    (nativeAfter (.extend 1 (2^64-1)) twoHeld).tokensHeld 1=1 ∧
    ¬NativeDecides 4 2 false 1 (2^64-1) twoHeld := by
  refine ⟨.step (.start rfl) ⟨?_,rfl⟩,by decide +kernel,by decide +kernel,by decide +kernel,?_⟩
  · simp only [WordCall]
    decide
  · intro hd
    exact absurd (hd.grants (by decide +kernel)) (by decide +kernel)

end CudaForge.ReservationFeasibility
