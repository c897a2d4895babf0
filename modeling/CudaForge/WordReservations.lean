import CudaForge.ReservationFeasibility
import CudaForge.ShortestEvictions

/-!
# When a native reservation is right about its words

Three additions of a native reservation can wrap on their own: the tokens
held and asked for, the rounding of the shortfall to blocks, and the check
when the tokens are recorded. A reservation is safe when a granted one gains
exactly its tokens within the capacity, loses no other sequence's tokens in
silence, and one that demands more than the pool is refused. It is so exactly
when what the words accept has a sum within `size_t` and the words see every
demand that exceeds the pool.
-/

namespace CudaForge.WordReservations

open ExceptionState CacheBlocks CacheManager CeilDivision CacheInvariant CacheReservation
open CachePlacement CacheNative CacheConformance CacheBooks NativeRuns RefusedReservations
open ReservationFeasibility ShortestEvictions TransitionRuns

variable {total blockSize tokens : ℕ} {policy : PreemptionPolicy} {s t : KVCacheManager}
variable {sequence other : SequenceId} {table : SequenceBlockTable} {creating : Bool}

/-- A native reservation is safe in its words. -/
structure Safe (creating : Bool) (sequence : SequenceId) (tokens : ℕ) (u : NativeManager) :
    Prop where
  /-- Granted, it gains exactly the tokens, within the capacity. -/
  gains : ∀ outcome v,
    runNative (reservation creating sequence tokens) u=.ok (.outcome outcome) v →
      outcome.ok=true → v.tokensHeld sequence=u.tokensHeld sequence+tokens ∧
        v.tokensHeld sequence≤v.blocksHeld sequence*v.blockSize
  /-- Granted, it lowers no other count that it does not list. -/
  spares : ∀ outcome v,
    runNative (reservation creating sequence tokens) u=.ok (.outcome outcome) v →
      outcome.ok=true → ∀ other, other≠sequence → v.tokensHeld other<u.tokensHeld other →
        other∈outcome.preempted
  /-- A demand beyond the pool is refused by the answer. -/
  refuses : creating=true ∨ sequence∈u.tables →
    u.allocator.total<(u.tokensHeld sequence+tokens) ⌈/⌉ u.blockSize →
      ∃ outcome v, runNative (reservation creating sequence tokens) u=.ok (.outcome outcome) v ∧
        outcome.result=.insufficientCache

/-- The words of a reservation do not mislead the manager. -/
def Honest (u : NativeManager) (sequence : SequenceId) (tokens : ℕ) : Prop :=
  (Accepts u sequence tokens → u.tokensHeld sequence+tokens<2^64) ∧
    (u.allocator.total<(u.tokensHeld sequence+tokens) ⌈/⌉ u.blockSize →
      u.allocator.total<u.blocksHeld sequence+
        wordNeed u.blockSize (u.tokensHeld sequence) (u.blocksHeld sequence) tokens)

/-- Neither a sum of tokens nor a rounding that matters exceeds a word. -/
def SumsFit (u : NativeManager) (sequence : SequenceId) (tokens : ℕ) : Prop :=
  u.tokensHeld sequence+tokens<2^64 ∧
    (u.allocator.total<(u.tokensHeld sequence+tokens) ⌈/⌉ u.blockSize →
      u.tokensHeld sequence+tokens-u.blocksHeld sequence*u.blockSize+u.blockSize-1<2^64)

/-- Registering changes nobody's tokens. -/
theorem starting_tokens (u : NativeManager) (creating : Bool) (sequence other : SequenceId) :
    (nativeStarting creating sequence u).tokensHeld other=u.tokensHeld other := by
  cases creating with
  | false => rfl
  | true =>
    change (u.register sequence).tokensHeld other=_
    unfold NativeManager.register
    by_cases hm : sequence∈u.tables
    · rw [if_pos hm]
    · rw [if_neg hm,NativeManager.tokensHeld,NativeManager.tokensHeld]
      by_cases he : other=sequence
      · subst he
        rw [Finmap.lookup_insert,Finmap.lookup_eq_none.mpr hm]
        rfl
      · rw [Finmap.lookup_insert_of_ne _ he]

/-- What a native reservation for a known sequence left. -/
theorem wordReserves_left (h : Partitioned total blockSize policy s)
    (hk : s.tables.lookup sequence=some table) {outcome : Option AdmissionOutcome}
    (hr : WordReserves total blockSize sequence tokens s outcome t) :
    ((∃ answer, outcome=some answer ∧ answer.result=.insufficientCache) ↔
      total<table.blocks.length+wordNeed blockSize table.tokens table.blocks.length tokens) ∧
    ∀ answer, outcome=some answer → answer.ok=true →
      (shadow t).blocksHeld sequence=table.blocks.length+
          wordNeed blockSize table.tokens table.blocks.length tokens ∧
        (shadow t).blockSize=blockSize ∧
        ∀ other, other≠sequence → other∉answer.preempted →
          (shadow t).tokensHeld other=(shadow s).tokensHeld other := by
  have hneed := additional_word h hk tokens
  cases hr with
  | refused hk' hn =>
    rw [hk,Option.some.injEq] at hk'
    subst hk'
    rw [hneed] at hn
    refine ⟨iff_of_true ⟨_,rfl,rfl⟩ hn,?_⟩
    intro answer ha hok
    rw [Option.some.injEq] at ha
    subst ha
    exact absurd hok (by decide)
  | @served _ outcome mid hk' hn hm ho =>
    rw [hk,Option.some.injEq] at hk'
    subst hk'
    obtain ⟨hp,hfree,_,hok,_⟩ := hm.facts h
    rw [hneed] at hn hfree
    refine ⟨iff_of_false ?_ (by omega),?_⟩
    · rintro ⟨answer,ha,hi⟩
      rw [Option.some.injEq] at ha
      subst ha
      rw [AdmissionOutcome.ok,hi] at hok
      exact absurd hok (by decide)
    intro answer ha _
    rw [Option.some.injEq] at ha
    subst ha
    refine ⟨?_,hp.size_eq,?_⟩
    · have hle : wordNeed blockSize table.tokens table.blocks.length tokens≤
          mid.allocator.free.length := hfree
      rw [NativeManager.blocksHeld,shadow_lookup,wordGranted,granted,AList.lookup_insert,hneed]
      dsimp only
      rw [List.length_append,List.length_take,Nat.min_eq_left hle]
    · intro other hne hnot
      rw [NativeManager.tokensHeld,NativeManager.tokensHeld,shadow_lookup,shadow_lookup,
        wordGranted,granted,AList.lookup_insert_ne hne,(makesRoom_frame hm).2.1 other hnot]
  | @overflowed _ outcome mid hk' hn hm ho =>
    rw [hk,Option.some.injEq] at hk'
    subst hk'
    rw [hneed] at hn
    refine ⟨iff_of_false ?_ (by omega),?_⟩
    · rintro ⟨outcome,hs,_⟩
      exact absurd hs.symm (Option.some_ne_none _)
    · intro outcome hs
      exact absurd hs.symm (Option.some_ne_none _)

/-- A native reservation for a known sequence, or one to be registered, is
safe exactly when its words are honest. -/
theorem safe_iff (h : Partitioned total blockSize policy s) (hto : total≤2^32)
    (hk : creating=true ∨ sequence∈s.tables) (ht : 0<tokens) :
    Safe creating sequence tokens (shadow s) ↔ Honest (shadow s) sequence tokens := by
  obtain ⟨start,table,outcome,t,hstart,hp,hf,hheld,hown,hr,hx⟩ := reservation_word h hto hk ht
  obtain ⟨hgranted,hword,_⟩ := wordReserves_facts hp hf hr
  obtain ⟨hrefused,hleft⟩ := wordReserves_left hp hf hr
  have hbs : (shadow s).blockSize=blockSize := h.size_eq
  have htot : (shadow s).allocator.total=total := h.totalBlocks_eq
  have hacc : Accepts (shadow s) sequence tokens ↔ ¬Refused (outcome.map .outcome) := by
    rw [hgranted,Accepts,hheld,hown,hbs,htot,Overflows,Nat.not_lt]
  have hok : ∀ answer v, runNative (reservation creating sequence tokens) (shadow s)=
      .ok (.outcome answer) v → answer.ok=true →
        outcome=some answer ∧ v=shadow t ∧ ¬Refused (outcome.map .outcome) := by
    intro answer v hrun hgrant
    rw [hx] at hrun
    cases outcome with
    | none => exact absurd hrun (by simp only [Option.map_none,ending,reduceCtorEq,
        not_false_eq_true])
    | some found =>
      rw [Option.map_some,ending,EStateM.Result.ok.injEq,CacheReply.outcome.injEq] at hrun
      obtain ⟨rfl,rfl⟩ := hrun
      exact ⟨rfl,rfl,fun hf => absurd (hgrant.symm.trans hf) (by decide)⟩
  constructor
  · intro hs
    constructor
    · intro ha
      have hg := hacc.mp ha
      cases outcome with
      | none => exact absurd trivial hg
      | some answer =>
        have hgrant : answer.ok=true := Bool.not_eq_false _ ▸ hg
        have hgain := (hs.gains answer (shadow t) hx hgrant).1
        rw [hword hg,←hheld] at hgain
        rw [←hgain]
        exact Nat.mod_lt _ (by omega)
    · intro hlt
      obtain ⟨answer,v,hrun,hi⟩ := hs.refuses hk hlt
      rw [hheld,hown,hbs,htot]
      refine hrefused.mp ⟨answer,?_,hi⟩
      rw [hx] at hrun
      cases outcome with
      | none => exact absurd hrun (by simp only [Option.map_none,ending,reduceCtorEq,
          not_false_eq_true])
      | some found =>
        rw [Option.map_some,ending,EStateM.Result.ok.injEq,CacheReply.outcome.injEq] at hrun
        rw [hrun.1]
  · rintro ⟨hsum,hsees⟩
    refine ⟨?_,?_,?_⟩
    · intro answer v hrun hgrant
      obtain ⟨ho,rfl,hg⟩ := hok answer v hrun hgrant
      obtain ⟨hblocks,hsize,_⟩ := hleft answer ho hgrant
      have hw := hsum (hacc.mpr hg)
      rw [hheld] at hw ⊢
      obtain ⟨_,hover⟩ := hgranted.mp hg
      rw [Overflows,Nat.not_lt,word64_of_lt hw] at hover
      rw [hword hg,word64_of_lt hw,hblocks,hsize]
      exact ⟨rfl,hover.trans (Nat.mod_le _ _)⟩
    · intro answer v hrun hgrant other hne hlt
      obtain ⟨ho,rfl,_⟩ := hok answer v hrun hgrant
      by_contra hnot
      have hsame := (hleft answer ho hgrant).2.2 other hne hnot
      rw [hsame,←hstart,starting_tokens] at hlt
      exact Nat.lt_irrefl _ hlt
    · intro _ hlt
      have hn := hsees hlt
      rw [hheld,hown,hbs,htot] at hn
      obtain ⟨answer,rfl,hi⟩ := hrefused.mpr hn
      exact ⟨answer,shadow t,hx,hi⟩

/-- A reservation of nothing is safe. -/
theorem safe_nothing (h : Partitioned total blockSize policy s) (hc : Covered blockSize s)
    (creating : Bool) (sequence : SequenceId) : Safe creating sequence 0 (shadow s) := by
  have hbs : (shadow s).blockSize=blockSize := h.size_eq
  have htot : (shadow s).allocator.total=total := h.totalBlocks_eq
  have hown := shadow_covers h hc sequence
  have hrun : ∀ outcome v, runNative (reservation creating sequence 0) (shadow s)=
      .ok (.outcome outcome) v → v=shadow s := by
    intro outcome v hx
    cases creating <;> exact (EStateM.Result.ok.inj hx).2.symm
  refine ⟨?_,?_,?_⟩
  · intro outcome v hx _
    rw [hrun outcome v hx,hbs]
    exact ⟨rfl,hown.2⟩
  · intro outcome v hx _ other _ hlt
    rw [hrun outcome v hx] at hlt
    exact absurd hlt (Nat.lt_irrefl _)
  · intro _ hlt
    rw [htot,hbs,Nat.add_zero] at hlt
    have hle := (ceilDiv_le_iff h.size_pos _ _).mpr
      (hown.2.trans (Nat.mul_le_mul_right blockSize hown.1))
    omega

/-- An extension of an unknown sequence raises, and is safe. -/
theorem safe_unknown (hn : sequence∉s.tables) (ht : 0<tokens) :
    Safe false sequence tokens (shadow s) := by
  have hraises : ∀ outcome v, runNative (reservation false sequence tokens) (shadow s)≠
      .ok (.outcome outcome) v := by
    intro outcome v hx
    have ha := native_unknown (u := shadow s) (show sequence∉(shadow s).tables from hn) ht
    change runNative (.extend sequence tokens) (shadow s)=_ at hx
    rw [hx] at ha
    exact absurd (congrArg Prod.fst ha) (by simp only [answered,reduceCtorEq,not_false_eq_true])
  refine ⟨fun o v hx => absurd hx (hraises o v),fun o v hx => absurd hx (hraises o v),?_⟩
  rintro (hc | hk)
  · exact absurd hc (by decide)
  · exact absurd (show sequence∈s.tables from hk) hn

/-- Where every capacity is a `size_t`, a demand beyond the pool is seen
exactly when its rounding does not wrap. -/
theorem wordNeed_sees_iff {held own : ℕ} (hs : 0<blockSize) (hfit : (total+1)*blockSize≤2^64)
    (ho : own≤total) (hw : held+tokens<2^64) (hlt : total<(held+tokens) ⌈/⌉ blockSize) :
    total<own+wordNeed blockSize held own tokens ↔
      held+tokens-own*blockSize+blockSize-1<2^64 := by
  rcases wordNeed_exceeds hs hfit ho hw hlt with ⟨hsum,hmore⟩ | ⟨hsum,hz,_⟩
  · exact iff_of_true hmore hsum
  · refine iff_of_false ?_ (Nat.not_lt.mpr hsum)
    omega

/-- There the words are honest exactly when the sums fit. -/
theorem honest_iff (h : Partitioned total blockSize policy s) (hc : Covered blockSize s)
    (hfit : (total+1)*blockSize≤2^64) (ht : tokens<2^64) :
    Honest (shadow s) sequence tokens ↔ SumsFit (shadow s) sequence tokens := by
  have hbs : (shadow s).blockSize=blockSize := h.size_eq
  have htot : (shadow s).allocator.total=total := h.totalBlocks_eq
  obtain ⟨hown,hcov⟩ := shadow_covers h hc sequence
  unfold Honest SumsFit Accepts
  rw [hbs,htot]
  constructor
  · rintro ⟨hsum,hsees⟩
    have hw : (shadow s).tokensHeld sequence+tokens<2^64 := by
      by_contra hw
      obtain ⟨hz,_,hle⟩ := wordNeed_wraps h.size_pos hfit hown hcov ht (Nat.le_of_not_lt hw)
      refine hw (hsum ?_)
      dsimp only
      rw [hz]
      exact ⟨hown,hle⟩
    exact ⟨hw,fun hlt => (wordNeed_sees_iff h.size_pos hfit hown hw hlt).mp (hsees hlt)⟩
  · rintro ⟨hw,hround⟩
    exact ⟨fun _ => hw,fun hlt => (wordNeed_sees_iff h.size_pos hfit hown hw hlt).mpr (hround hlt)⟩

/-- A reservation whose words are right: one of nothing, an extension of an
unknown sequence, or an honest one. -/
def RightWords (creating : Bool) (sequence : SequenceId) (tokens : ℕ) (u : NativeManager) : Prop :=
  tokens=0 ∨ (creating=false ∧ sequence∉u.tables) ∨ Honest u sequence tokens

/-- In every reachable native manager, over block ids that fit their type, a
reservation is safe exactly when its words are right. Where one block more
than the pool still has a capacity within `size_t`, honest words are sums
that fit. -/
theorem reservation_safe_iff (total blockSize : ℕ) (policy : PreemptionPolicy) (hto : total≤2^32)
    (u : NativeManager) (hu : (nativeMachine total blockSize policy).Reaches u) (creating : Bool)
    (sequence : SequenceId) (tokens : ℕ) (ht : tokens<2^64) :
    (Safe creating sequence tokens u ↔ RightWords creating sequence tokens u) ∧
      ((total+1)*blockSize≤2^64 → (Honest u sequence tokens ↔ SumsFit u sequence tokens)) := by
  obtain ⟨s,rfl,h,hc⟩ := reaches_shadow hto hu
  refine ⟨?_,fun hfit => honest_iff h hc hfit ht⟩
  rcases Nat.eq_zero_or_pos tokens with rfl | hpos
  · exact iff_of_true (safe_nothing h hc creating sequence) (Or.inl rfl)
  by_cases hk : creating=true ∨ sequence∈s.tables
  · rw [safe_iff h hto hk hpos]
    refine ⟨fun hh => Or.inr (Or.inr hh),?_⟩
    rintro (hz | ⟨hcr,hn⟩ | hh)
    · omega
    · rcases hk with hc' | hm
      · exact absurd (hcr.symm.trans hc') (by decide)
      · exact absurd (show sequence∈(shadow s).tables from hm) hn
    · exact hh
  · rw [not_or,Bool.not_eq_true] at hk
    obtain ⟨rfl,hn⟩ := hk
    exact iff_of_true (safe_unknown hn hpos) (Or.inr (Or.inl ⟨rfl,hn⟩))

/-- Three more tokens for the two of a sequence are safe. -/
theorem three_more_safe : Safe false 1 3 twoHeld := by
  have hr : (nativeMachine 4 2 .newest).Reaches twoHeld :=
    .step (.start (s := freshNative) rfl) ⟨by simp only [WordCall]; decide,rfl⟩
  have hs := reservation_safe_iff 4 2 .newest (by decide) twoHeld hr false 1 3 (by decide)
  refine hs.1.mpr (Or.inr (Or.inr ((hs.2 (by decide)).mpr ⟨by decide +kernel,?_⟩)))
  exact fun _ => by decide +kernel

/-- The sum wraps for two tokens and the largest word; the rounding wraps for
the largest word alone, and the manager raises with the newcomer registered. -/
theorem largest_word_unsafe :
    (nativeMachine 4 2 .newest).Reaches twoHeld ∧ ¬Safe false 1 (2^64-1) twoHeld ∧
    (nativeMachine 4 2 .newest).Reaches freshNative ∧ ¬Safe true 1 (2^64-1) freshNative ∧
    (answered (runNative (.admitSequence 1 (2^64-1)) freshNative)).1=none ∧
    (nativeAfter (.admitSequence 1 (2^64-1)) freshNative).activeSequences=1 := by
  refine ⟨.step (.start (s := freshNative) rfl) ⟨by simp only [WordCall]; decide,rfl⟩,?_,
    .start rfl,?_,by decide +kernel,by decide +kernel⟩
  · intro hs
    have hg := (hs.gains ⟨.admitted,[]⟩ (nativeAfter (.extend 1 (2^64-1)) twoHeld) rfl rfl).1
    exact absurd hg (by decide +kernel)
  · intro hs
    have hlt : 4<(freshNative.tokensHeld 1+(2^64-1)) ⌈/⌉ 2 := by
      rw [Nat.ceilDiv_eq_add_pred_div]
      decide +kernel
    obtain ⟨outcome,v,hx,_⟩ := hs.refuses (Or.inl rfl) hlt
    have ha : (answered (runNative (.admitSequence 1 (2^64-1)) freshNative)).1=none := by
      decide +kernel
    change runNative (.admitSequence 1 (2^64-1)) freshNative=_ at hx
    rw [hx] at ha
    exact absurd ha (by simp only [answered,reduceCtorEq,not_false_eq_true])

end CudaForge.WordReservations
