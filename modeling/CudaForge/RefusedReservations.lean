import CudaForge.CacheBooks
import CudaForge.NativeRuns

/-!
# What a refused reservation leaves behind

A reservation that reports too little cache, or raises, should leave the
manager as it was. An unknown sequence becomes known before the cache is
known to suffice, so a refused newcomer stays behind, in either
implementation; nothing else changes. Where a capacity of the pool exceeds
`size_t`, the native manager can also raise after handing out blocks.
-/

namespace CudaForge.RefusedReservations

open ExceptionState CacheBlocks CacheManager CeilDivision CacheInvariant CacheReservation
open CachePlacement CacheNative CacheConformance CacheBooks NativeRuns TransitionRuns

variable {total blockSize tokens : ℕ} {policy : PreemptionPolicy} {s t : KVCacheManager}
variable {sequence : SequenceId} {table : SequenceBlockTable}

/-- What can be observed of a manager of either implementation. -/
structure Standing where
  /-- Whether a sequence is known. -/
  isAdmitted : SequenceId → Bool
  /-- Known sequences. -/
  activeSequences : ℕ
  /-- Known sequences, oldest admission first. -/
  admissionOrder : List SequenceId
  /-- The tokens and blocks of each table. -/
  held : SequenceId → Option (ℕ×List BlockId)
  /-- Blocks no sequence holds. -/
  freeBlocks : ℕ
  /-- Preemptions since construction. -/
  preemptionCount : ℕ
  /-- Tokens lost to them. -/
  recomputedTokens : ℕ

/-- The Python manager, observed. -/
def standing (s : KVCacheManager) : Standing where
  isAdmitted := s.isAdmitted
  activeSequences := s.activeSequences
  admissionOrder := s.admissionOrder
  held sequence := (s.tables.lookup sequence).map (fun table => (table.tokens,table.blocks))
  freeBlocks := s.freeBlocks
  preemptionCount := s.preemptions
  recomputedTokens := s.recomputedTokens

/-- The native manager, observed. -/
def nativeStanding (u : NativeManager) : Standing where
  isAdmitted sequence := decide (sequence∈u.tables)
  activeSequences := u.activeSequences
  admissionOrder := u.admissionOrder
  held sequence := (u.tables.lookup sequence).map (fun table => (table.tokens,table.blocks))
  freeBlocks := u.freeBlocks
  preemptionCount := u.preemptions
  recomputedTokens := u.recomputedTokens

/-- A call reports too little cache, or raises. -/
def Refused : Option CacheReply → Prop
  | none => True
  | some (.outcome outcome) => outcome.ok=false
  | some (.reclaimed _) => False
  | some .released => False

instance : (reply : Option CacheReply) → Decidable (Refused reply)
  | none => inferInstanceAs (Decidable True)
  | some (.outcome outcome) => inferInstanceAs (Decidable (outcome.ok=false))
  | some (.reclaimed _) => inferInstanceAs (Decidable False)
  | some .released => inferInstanceAs (Decidable False)

/-- If the call is refused, nothing that can be observed changes. -/
def Atomic {ε σ : Type} (run : EStateM ε σ CacheReply) (observe : σ → Standing) (s : σ) : Prop :=
  Refused (answered (run s)).1 → observe (answered (run s)).2=observe s

/-- An unknown sequence asks to be admitted with more tokens than the whole
pool holds. -/
def OversizedNewcomer (total blockSize : ℕ) (known : SequenceId → Bool) : CacheCall → Prop
  | .admitSequence sequence tokens => known sequence=false ∧ total<tokens ⌈/⌉ blockSize
  | .extend _ _ => False
  | .preempt _ => False
  | .release _ => False

/-- A registered newcomer is noticed. -/
theorem register_noticed (hn : sequence∉s.tables) (ht : sequence∈t.tables) :
    standing t≠standing s := by
  intro he
  have hi := congrFun (congrArg Standing.isAdmitted he) sequence
  simp only [standing,KVCacheManager.isAdmitted,hn,ht,decide_true,decide_false,
    Bool.true_eq_false] at hi

/-- In the Python manager exactly the oversized newcomers leave something
behind. -/
theorem run_atomic_iff (h : PoolInvariant total blockSize policy s) (call : CacheCall) :
    Atomic call.run standing s ↔ ¬OversizedNewcomer total blockSize s.isAdmitted call := by
  unfold Atomic
  rcases call_cases h call with hm | ⟨sequence,tokens,rfl,_,_,hx⟩
  · obtain ⟨reply,t,hx,he,_⟩ := hm.returns
    rw [hx]
    cases he with
    | admittedNothing =>
      refine iff_of_true (by intros; contradiction) ?_
      rintro ⟨_,hlt⟩
      rw [(ceilDiv_eq_zero_iff h.size_pos 0).mpr rfl] at hlt
      exact Nat.not_lt_zero _ hlt
    | extendedNothing => exact iff_of_true (by intros; contradiction) not_false
    | @admitted sequence tokens outcome _ ht hr =>
      have hb := reserves_booked hr
      have hok := reserves_ok_iff (register_invariant h sequence) hr
      by_cases hk : sequence∈s.tables
      · have hs : s.register sequence=s := if_pos hk
        rw [hs] at hb
        refine iff_of_true (fun hf => congrArg standing (hb.refused hf).2) ?_
        rintro ⟨hn,_⟩
        exact absurd hk (of_decide_eq_false hn)
      · have hz : (s.register sequence).tokensHeld sequence=0 := by
          rw [(register_booked hk).2 sequence,KVCacheManager.tokensHeld,AList.lookup_eq_none.mpr hk]
        rw [hz,Nat.zero_add] at hok
        have hreg := ((register_booked hk).1 sequence).mpr (Or.inl rfl)
        constructor
        · rintro hat ⟨_,hlt⟩
          have hf : outcome.ok=false := by
            by_contra hne
            have hle := hok.mp (Bool.not_eq_false _ ▸ hne)
            omega
          exact register_noticed hk ((hb.known sequence).mpr hreg) (hat hf)
        · intro hno hf
          have hfit := hok.mpr (Nat.le_of_not_lt (fun hlt => hno ⟨decide_eq_false hk,hlt⟩))
          exact absurd (hfit.symm.trans hf) (by decide)
    | extended _ hr =>
      exact iff_of_true (fun hf => congrArg standing ((reserves_booked hr).refused hf).2) not_false
    | preemptedNothing _ => exact iff_of_true (by intros; contradiction) not_false
    | preempted _ _ => exact iff_of_true (by intros; contradiction) not_false
    | releasedNothing _ => exact iff_of_true (by intros; contradiction) not_false
    | released _ => exact iff_of_true (by intros; contradiction) not_false
  · rw [hx]
    exact iff_of_true (fun _ => rfl) not_false

/-- The native manager can serve the tokens: the blocks it asks for are
there, and their capacity is enough, both in machine words. -/
def Accepts (u : NativeManager) (sequence : SequenceId) (tokens : ℕ) : Prop :=
  let own := u.blocksHeld sequence
  let need := wordNeed u.blockSize (u.tokensHeld sequence) own tokens
  own+need≤u.allocator.total ∧
    word64 (u.tokensHeld sequence+tokens)≤word64 ((own+need)*u.blockSize)

/-- The native manager hands out blocks and then finds, in machine words,
that their capacity is not enough. -/
def Spills (u : NativeManager) (sequence : SequenceId) (tokens : ℕ) : Prop :=
  let own := u.blocksHeld sequence
  let need := wordNeed u.blockSize (u.tokensHeld sequence) own tokens
  own+need≤u.allocator.total ∧ 0<need ∧
    word64 ((own+need)*u.blockSize)<word64 (u.tokensHeld sequence+tokens)

/-- A native reservation is for nothing, or for a known sequence and does not
spill, or for an unknown one and is served. -/
def Unspoiled (u : NativeManager) : CacheCall → Prop
  | .admitSequence sequence tokens => tokens=0 ∨
      ((sequence∈u.tables → ¬Spills u sequence tokens) ∧
        (sequence∉u.tables → Accepts u sequence tokens))
  | .extend sequence tokens => tokens=0 ∨ (sequence∈u.tables → ¬Spills u sequence tokens)
  | .preempt _ => True
  | .release _ => True

/-- Spilling, read off the table of a known sequence. -/
theorem spills_iff (h : Partitioned total blockSize policy s)
    (hk : s.tables.lookup sequence=some table) :
    Spills (shadow s) sequence tokens ↔
      table.blocks.length+wordNeed blockSize table.tokens table.blocks.length tokens≤total ∧
        0<wordNeed blockSize table.tokens table.blocks.length tokens ∧
        Overflows blockSize table (wordNeed blockSize table.tokens table.blocks.length tokens)
          tokens := by
  have hbs : (shadow s).blockSize=blockSize := h.size_eq
  have htot : (shadow s).allocator.total=total := h.totalBlocks_eq
  rw [Spills,NativeManager.tokensHeld,NativeManager.blocksHeld,shadow_lookup,hk,hbs,htot]
  rfl

/-- The first table of an unknown sequence. -/
theorem newcomer_lookup (hn : sequence∉s.tables) :
    (s.register sequence).tables.lookup sequence=some (.create sequence s.blockSize) := by
  rw [register_lookup,AList.lookup_eq_none.mpr hn,Option.getD_none]

/-- Serving an unknown sequence, in numbers. -/
theorem accepts_iff (h : Partitioned total blockSize policy s) (hn : sequence∉s.tables) :
    Accepts (shadow s) sequence tokens ↔
      0+wordNeed blockSize 0 0 tokens≤total ∧
        word64 (0+tokens)≤word64 ((0+wordNeed blockSize 0 0 tokens)*blockSize) := by
  have hbs : (shadow s).blockSize=blockSize := h.size_eq
  have htot : (shadow s).allocator.total=total := h.totalBlocks_eq
  rw [Accepts,NativeManager.tokensHeld,NativeManager.blocksHeld,shadow_lookup,
    AList.lookup_eq_none.mpr hn,hbs,htot]

/-- A grant of nothing is not noticed. -/
theorem granted_nothing (h : Partitioned total blockSize policy s)
    (hk : s.tables.lookup sequence=some table) :
    shadow (granted s sequence table 0 0)=shadow s := by
  have hp : exclusivePool s.allocator.total s.allocator.blockSize s.allocator.free=s.allocator := by
    rw [h.pool_fields.1,h.pool_fields.2]
    exact h.pool_eq.symm
  have ht : (s.tables.insert sequence table).toFinmap=s.tables.toFinmap := by
    rw [←Finmap.insert_toFinmap]
    exact insert_lookup_self ((Finmap.lookup_toFinmap _ _).trans hk)
  simp only [shadow,reduced,image,granted,List.drop_zero,hp,List.take_zero,List.append_nil,
    Nat.add_zero,ht]

/-- A native reservation, however it ends, is one for a known sequence. -/
theorem wordReserves_known {outcome : Option AdmissionOutcome}
    (hr : WordReserves total blockSize sequence tokens s outcome t) : sequence∈s.tables := by
  cases hr with
  | refused hk _ => exact known_of_lookup hk
  | served hk _ _ _ => exact known_of_lookup hk
  | overflowed hk _ _ _ => exact known_of_lookup hk

/-- A reservation for a known sequence leaves nothing behind unless it
spills. -/
theorem known_atomic_iff (h : Partitioned total blockSize policy s)
    {outcome : Option AdmissionOutcome}
    (hr : WordReserves total blockSize sequence tokens s outcome t) :
    (Refused (outcome.map .outcome) → nativeStanding (shadow t)=nativeStanding (shadow s)) ↔
      ¬Spills (shadow s) sequence tokens := by
  cases hr with
  | refused hk hn =>
    rw [additional_word h hk] at hn
    rw [spills_iff h hk]
    exact iff_of_true (fun _ => rfl) (fun hs => absurd hn (Nat.not_lt.mpr hs.1))
  | @served _ outcome _ hk _ hm ho =>
    rw [additional_word h hk] at ho
    rw [spills_iff h hk]
    have hok : outcome.ok=true := (hm.facts h).2.2.2.1
    exact iff_of_true (fun hf => absurd (hok.symm.trans hf) (by decide)) (fun hs => ho hs.2.2)
  | @overflowed table _ mid hk hn hm ho =>
    have hfree := (hm.facts h).2.1
    rw [additional_word h hk] at hn hm ho hfree ⊢
    rw [spills_iff h hk]
    generalize wordNeed blockSize table.tokens table.blocks.length tokens=need at *
    constructor
    · rintro hat ⟨_,hpos,_⟩
      have hs := congrFun (congrArg Standing.held (hat trivial)) sequence
      simp only [nativeStanding,shadow_lookup,hk,granted,AList.lookup_insert,Option.map_some,
        Option.some.injEq,Prod.mk.injEq] at hs
      have hl := congrArg List.length hs.2
      have hle : need ≤ mid.allocator.free.length := hfree
      rw [List.length_append,List.length_take,Nat.min_eq_left hle] at hl
      omega
    · intro hno _
      have hz : need=0 := by
        by_contra hp
        exact hno ⟨hn,by omega,ho⟩
      subst hz
      cases hm with
      | fits _ => rw [granted_nothing h hk]
      | displaced hf _ _ => exact absurd hf (Nat.not_lt_zero _)

/-- A reservation for an unknown sequence leaves nothing behind only when it
is served. -/
theorem newcomer_atomic_iff (h : Partitioned total blockSize policy s)
    (hn : sequence∉s.tables) {outcome : Option AdmissionOutcome}
    (hr : WordReserves total blockSize sequence tokens (s.register sequence) outcome t) :
    (Refused (outcome.map .outcome) → nativeStanding (shadow t)=nativeStanding (shadow s)) ↔
      Accepts (shadow s) sequence tokens := by
  have hreg := register_partitioned h sequence
  have hfirst := newcomer_lookup hn
  have hseen : ∀ {v : KVCacheManager}, v.tables.lookup sequence≠none →
      nativeStanding (shadow v)≠nativeStanding (shadow s) := by
    intro v hv he
    have hs := congrFun (congrArg Standing.held he) sequence
    simp only [nativeStanding,shadow_lookup,AList.lookup_eq_none.mpr hn,Option.map_none,
      Option.map_eq_none_iff] at hs
    exact hv hs
  rw [accepts_iff h hn]
  cases hr with
  | refused hk hlt =>
    rw [additional_word hreg hk] at hlt
    rw [hfirst,Option.some.injEq] at hk
    subst hk
    refine iff_of_false
      (fun hat => hseen (by rw [hfirst]; exact Option.some_ne_none _) (hat rfl)) ?_
    rintro ⟨hle,_⟩
    exact absurd hlt (Nat.not_lt.mpr hle)
  | @served _ outcome _ hk hle hm ho =>
    rw [additional_word hreg hk] at hle ho
    rw [hfirst,Option.some.injEq] at hk
    subst hk
    have hok : outcome.ok=true := (hm.facts hreg).2.2.2.1
    exact iff_of_true (fun hf => absurd (hok.symm.trans hf) (by decide)) ⟨hle,Nat.le_of_not_lt ho⟩
  | overflowed hk hle hm ho =>
    rw [additional_word hreg hk] at ho ⊢
    rw [hfirst,Option.some.injEq] at hk
    subst hk
    refine iff_of_false
      (fun hat => hseen (by rw [granted,AList.lookup_insert]; exact Option.some_ne_none _)
        (hat trivial)) ?_
    rintro ⟨_,hcap⟩
    exact absurd ho (Nat.not_lt.mpr hcap)

/-- In the native manager exactly the spoiled calls leave something behind. -/
theorem native_atomic_iff (h : Partitioned total blockSize policy s) (hto : total≤2^32)
    (call : CacheCall) :
    Atomic (runNative call) nativeStanding (shadow s) ↔ Unspoiled (shadow s) call := by
  obtain ⟨reply,t,he,hx⟩ := word_cases h hto call
  unfold Atomic
  rw [hx]
  cases he with
  | admittedNothing => exact iff_of_true nofun (Or.inl rfl)
  | extendedNothing => exact iff_of_true nofun (Or.inl rfl)
  | @admitted sequence tokens _ _ ht hr =>
    by_cases hk : sequence∈s.tables
    · have hs : s.register sequence=s := if_pos hk
      rw [hs] at hr
      refine (known_atomic_iff h hr).trans ⟨fun hno => Or.inr ⟨fun _ => hno,?_⟩,?_⟩
      · exact fun hn => absurd (show sequence∈(shadow s).tables from hk) hn
      · rintro (hz | ⟨hno,_⟩)
        · omega
        · exact hno hk
    · refine (newcomer_atomic_iff h hk hr).trans ⟨fun ha => Or.inr ⟨?_,fun _ => ha⟩,?_⟩
      · exact fun hm => absurd (show sequence∈s.tables from hm) hk
      · rintro (hz | ⟨_,ha⟩)
        · omega
        · exact ha hk
  | @extended sequence tokens _ _ ht hr =>
    have hk : sequence∈s.tables := wordReserves_known hr
    refine (known_atomic_iff h hr).trans ⟨fun hno => Or.inr (fun _ => hno),?_⟩
    rintro (hz | hno)
    · omega
    · exact hno hk
  | extendedUnknown _ hk =>
    exact iff_of_true (fun _ => rfl)
      (Or.inr (fun hm => absurd (show _∈s.tables from hm) hk))
  | preemptedNothing _ => exact iff_of_true nofun trivial
  | preempted _ _ => exact iff_of_true nofun trivial
  | releasedNothing _ => exact iff_of_true nofun trivial
  | released _ => exact iff_of_true nofun trivial

/-- Where every capacity is a `size_t`, a reservation for a known sequence
does not spill. -/
theorem known_spills_not (h : Partitioned total blockSize policy s) (hc : Covered blockSize s)
    (hfit : (total+1)*blockSize≤2^64) (hk : s.tables.lookup sequence=some table)
    (ht : tokens<2^64) : ¬Spills (shadow s) sequence tokens := by
  have hown := h.reclaimable_add_own hk
  have ho : table.blocks.length≤total := by omega
  rw [spills_iff h hk]
  rintro ⟨hle,hpos,hover⟩
  by_cases hw : table.tokens+tokens<2^64
  · by_cases hfits : (table.tokens+tokens) ⌈/⌉ blockSize≤total
    · exact absurd hover (Nat.not_lt.mpr (wordNeed_fits h.size_pos hfit ho hfits).2)
    · rcases wordNeed_exceeds h.size_pos hfit ho hw (Nat.lt_of_not_le hfits) with ⟨_,hlt⟩ | ⟨_,hz,_⟩
      · omega
      · omega
  · have hz := (wordNeed_wraps h.size_pos hfit ho (hc sequence table hk).1 ht (by omega)).1
    omega

/-- There an unknown sequence is served exactly when the pool holds its
tokens. -/
theorem newcomer_accepts_iff (h : Partitioned total blockSize policy s)
    (hfit : (total+1)*blockSize≤2^64) (hn : sequence∉s.tables) (ht : tokens<2^64) :
    Accepts (shadow s) sequence tokens ↔ tokens ⌈/⌉ blockSize≤total := by
  have hz : 0+tokens=tokens := Nat.zero_add tokens
  rw [accepts_iff h hn]
  constructor
  · rintro ⟨hle,hcap⟩
    by_contra hgt
    rcases wordNeed_exceeds h.size_pos hfit (Nat.zero_le total) (hz ▸ ht)
      (hz.symm ▸ Nat.lt_of_not_le hgt) with ⟨_,hlt⟩ | ⟨_,hneed,hover⟩
    · omega
    · rw [hneed] at hcap
      exact absurd hover (Nat.not_lt.mpr hcap)
  · intro hle
    have hle' : (0+tokens) ⌈/⌉ blockSize≤total := by rwa [hz]
    obtain ⟨hadd,hcap⟩ := wordNeed_fits h.size_pos hfit (Nat.zero_le total) hle'
    rw [hz,Nat.max_eq_right (Nat.zero_le _)] at hadd
    exact ⟨hadd.trans_le hle,hcap⟩

/-- There exactly the oversized newcomers are spoiled. -/
theorem unspoiled_iff (h : Partitioned total blockSize policy s) (hc : Covered blockSize s)
    (hfit : (total+1)*blockSize≤2^64) {call : CacheCall} (hw : WordCall call) :
    Unspoiled (shadow s) call ↔
      ¬OversizedNewcomer total blockSize (nativeStanding (shadow s)).isAdmitted call := by
  have hspill : ∀ {sequence : SequenceId} {tokens : ℕ}, tokens<2^64 →
      sequence∈(shadow s).tables → ¬Spills (shadow s) sequence tokens := by
    intro sequence tokens ht hm
    obtain ⟨table,hk⟩ := Option.isSome_iff_exists.mp
      (AList.lookup_isSome.mpr (show sequence∈s.tables from hm))
    exact known_spills_not h hc hfit hk ht
  cases call with
  | admitSequence sequence tokens =>
    constructor
    · rintro (hz | ⟨_,ha⟩) ⟨hn,hlt⟩
      · rw [hz,(ceilDiv_eq_zero_iff h.size_pos 0).mpr rfl] at hlt
        exact Nat.not_lt_zero _ hlt
      · have hm : sequence∉s.tables := of_decide_eq_false hn
        exact absurd hlt (Nat.not_lt.mpr ((newcomer_accepts_iff h hfit hm hw).mp (ha hm)))
    · intro hno
      refine Or.inr ⟨hspill hw,fun hm => (newcomer_accepts_iff h hfit hm hw).mpr ?_⟩
      exact Nat.le_of_not_lt (fun hlt => hno ⟨decide_eq_false hm,hlt⟩)
  | extend sequence tokens => exact iff_of_true (Or.inr (hspill hw)) not_false
  | preempt sequence => exact iff_of_true trivial not_false
  | release sequence => exact iff_of_true trivial not_false

/-- In every reachable manager, a refused call changes nothing exactly when it
is not the admission of an oversized newcomer. The native manager, over block
ids that fit their type, also spoils the calls whose capacities exceed
`size_t`; there are none when one block more than the pool still has a
capacity within it. -/
theorem refusal_atomic_iff (total blockSize : ℕ) (policy : PreemptionPolicy) :
    (∀ s, (cacheMachine total blockSize policy).Reaches s → ∀ call : CacheCall,
      (Atomic call.run standing s ↔ ¬OversizedNewcomer total blockSize s.isAdmitted call)) ∧
    (total≤2^32 → ∀ u, (nativeMachine total blockSize policy).Reaches u → ∀ call : CacheCall,
      WordCall call → (Atomic (runNative call) nativeStanding u ↔ Unspoiled u call) ∧
        ((total+1)*blockSize≤2^64 → (Unspoiled u call ↔
          ¬OversizedNewcomer total blockSize (nativeStanding u).isAdmitted call))) := by
  refine ⟨fun s hs call => run_atomic_iff (reaches_invariant hs) call,?_⟩
  intro hto u hu call hw
  obtain ⟨s,rfl,h,hc⟩ := reaches_shadow hto hu
  exact ⟨native_atomic_iff h hto call,fun hfit => unspoiled_iff h hc hfit hw⟩

/-- A new Python manager of four blocks of two tokens. -/
def freshPy : KVCacheManager := ⟨exclusivePool 4 2 [0,1,2,3],2,.newest,∅,[],0,0⟩

/-- A new native manager of four blocks of two tokens. -/
def freshNative : NativeManager := ⟨⟨4,2,[0,1,2,3],[0,0,0,0]⟩,2,.newest,∅,[],0,0⟩

/-- On new managers a refused admission of an oversized newcomer is the only
kind that leaves something behind; one of eight tokens is served. -/
theorem fresh_atomic :
    Atomic (CacheCall.run (.admitSequence 1 8)) standing freshPy ∧
      Atomic (runNative (.admitSequence 1 8)) nativeStanding freshNative := by
  have hceil : ¬4<8 ⌈/⌉ 2 := by
    rw [Nat.ceilDiv_eq_add_pred_div]
    decide
  have hc := refusal_atomic_iff 4 2 .newest
  have hn := hc.2 (by decide) freshNative (.start rfl) (.admitSequence 1 8)
    (by simp only [WordCall]; decide)
  exact ⟨(hc.1 freshPy (.start rfl) (.admitSequence 1 8)).mpr (fun ho => hceil ho.2),
    hn.1.mpr ((hn.2 (by decide)).mpr (fun ho => hceil ho.2))⟩

/-- Nine tokens do not fit eight: both managers refuse the newcomer and know
it from then on. -/
theorem oversized_remembered :
    (cacheMachine 4 2 .newest).Reaches freshPy ∧
    (answered ((CacheCall.admitSequence 99 9).run freshPy)).1=
      some (.outcome ⟨.insufficientCache,[]⟩) ∧
    (after (.admitSequence 99 9) freshPy).isAdmitted 99=true ∧ freshPy.isAdmitted 99=false ∧
    ¬Atomic (CacheCall.run (.admitSequence 99 9)) standing freshPy ∧
    (nativeMachine 4 2 .newest).Reaches freshNative ∧
    ¬Atomic (runNative (.admitSequence 99 9)) nativeStanding freshNative := by
  refine ⟨.start rfl,by decide +kernel,by decide +kernel,by decide +kernel,?_,.start rfl,?_⟩
  · intro hat
    have hs := congrFun (congrArg Standing.isAdmitted (hat (by decide +kernel))) 99
    exact absurd hs (by decide +kernel)
  · intro hat
    have hs := congrFun (congrArg Standing.isAdmitted (hat (by decide +kernel))) 99
    exact absurd hs (by decide +kernel)

end CudaForge.RefusedReservations
