import CudaForge.SchedulerEffects

/-!
# What the cache knows and how many tokens it holds

Each call of the manager, read as an entry in two books: which sequences are
known, and how many tokens each one holds. A reservation only touches the
requester and those it reports as preempted; a refusal touches nobody, but
an admission makes its sequence known before it is granted or refused.
-/

namespace CudaForge.CacheBooks

open ExceptionState CacheBlocks CacheManager CeilDivision CacheInvariant CacheReservation
open CachePlacement SchedulerEffects

variable {total blockSize tokens : ℕ} {policy : PreemptionPolicy} {s t : KVCacheManager}
variable {sequence : SequenceId} {outcome : AdmissionOutcome}

/-- The entries of a reservation. -/
structure Booked (sequence : SequenceId) (tokens : ℕ) (s : KVCacheManager)
    (outcome : AdmissionOutcome) (t : KVCacheManager) : Prop where
  /-- Nobody becomes known or unknown. -/
  known : ∀ other, other∈t.tables ↔ other∈s.tables
  /-- A granted requester gains what it asked for. -/
  own : outcome.ok=true → t.tokensHeld sequence=s.tokensHeld sequence+tokens
  /-- Nobody else gains or loses, unless preempted. -/
  others : ∀ other, other≠sequence → other∉outcome.preempted →
    t.tokensHeld other=s.tokensHeld other
  /-- A refusal changes nothing. -/
  refused : outcome.ok=false → outcome.preempted=[] ∧ t=s

/-- A sequence with a table is known. -/
theorem known_of_lookup {table : SequenceBlockTable} (hk : s.tables.lookup sequence=some table) :
    sequence∈s.tables := AList.lookup_isSome.mp (by rw [hk]; rfl)

/-- Granting books the tokens to the requester alone. -/
theorem granted_booked {table : SequenceBlockTable} (needed tokens : ℕ)
    (hk : s.tables.lookup sequence=some table) :
    (∀ other, other∈(granted s sequence table needed tokens).tables ↔ other∈s.tables) ∧
    (granted s sequence table needed tokens).tokensHeld sequence=
      s.tokensHeld sequence+tokens ∧
    ∀ other, other≠sequence →
      (granted s sequence table needed tokens).tokensHeld other=s.tokensHeld other := by
  refine ⟨?_,?_,?_⟩
  · intro other
    rw [granted,AList.mem_insert]
    exact or_iff_right_of_imp (fun he => he ▸ known_of_lookup hk)
  · rw [tokensHeld_of_lookup hk,tokensHeld_of_lookup (AList.lookup_insert _)]
  · intro other hn
    exact tokensHeld_congr (AList.lookup_insert_ne hn)

/-- Evictions make nobody known or unknown, and spare the tokens of all but
the victims. -/
theorem evicted_booked {evicted : List SequenceId} (hx : Evicted sequence s evicted t) :
    (∀ other, other∈t.tables ↔ other∈s.tables) ∧
      ∀ other, other∉evicted → t.tokensHeld other=s.tokensHeld other := by
  refine ⟨?_,fun other hn => tokensHeld_congr (hx.spared_lookup other hn)⟩
  intro other
  by_cases hm : other∈evicted
  · obtain ⟨_,table,hk,_⟩ := hx.victims_held other hm
    exact iff_of_true (known_of_lookup (hx.emptied_lookup other hm)) (known_of_lookup hk)
  · rw [←AList.lookup_isSome,hx.spared_lookup other hm,AList.lookup_isSome]

/-- A reservation that is served or refused is one for a known sequence. -/
theorem Reserves.known (hr : Reserves sequence tokens s outcome t) : sequence∈s.tables := by
  cases hr with
  | refused hk _ => exact known_of_lookup hk
  | fits hk _ => exact known_of_lookup hk
  | displaced hk _ _ _ => exact known_of_lookup hk

/-- Every reservation is booked so. -/
theorem reserves_booked (hr : Reserves sequence tokens s outcome t) :
    Booked sequence tokens s outcome t := by
  cases hr with
  | refused _ _ => exact ⟨fun _ => Iff.rfl,nofun,fun _ _ _ => rfl,fun _ => ⟨rfl,rfl⟩⟩
  | fits hk _ =>
    obtain ⟨hkn,hown,hoth⟩ := granted_booked (s.additionalBlocksFor sequence tokens) tokens hk
    exact ⟨hkn,fun _ => hown,fun other hn _ => hoth other hn,nofun⟩
  | @displaced table evicted u hk _ he _ =>
    have hx := he.effect
    have hns : sequence∉evicted := fun hm => (hx.victims_held sequence hm).1 rfl
    have hku := (hx.spared_lookup sequence hns).trans hk
    obtain ⟨hkn,hown,hoth⟩ := granted_booked (s.additionalBlocksFor sequence tokens) tokens hku
    obtain ⟨hxk,hxt⟩ := evicted_booked hx
    refine ⟨fun other => (hkn other).trans (hxk other),fun _ => ?_,fun other hn hv => ?_,nofun⟩
    · rw [hown,hxt sequence hns]
    · rw [hoth other hn,hxt other hv]

/-- A reservation is granted exactly when the requester's tokens and the new
ones fit the pool together. -/
theorem reserves_ok_iff (h : PoolInvariant total blockSize policy s)
    (hr : Reserves sequence tokens s outcome t) :
    outcome.ok=true ↔ (s.tokensHeld sequence+tokens) ⌈/⌉ blockSize≤total := by
  have ht := h.totalBlocks_eq
  have hex : ∀ {table : SequenceBlockTable}, s.tables.lookup sequence=some table →
      table.blocks.length+s.additionalBlocksFor sequence tokens=
        (s.tokensHeld sequence+tokens) ⌈/⌉ blockSize := by
    intro table hk
    rw [tokensHeld_of_lookup hk]
    exact additional_exact h hk tokens
  cases hr with
  | refused hk hn =>
    rw [←hex hk]
    exact ⟨nofun,fun hf => absurd hf (by omega)⟩
  | fits hk hf =>
    have ha := h.reclaimable_add_own hk
    rw [←hex hk]
    exact ⟨fun _ => by omega,fun _ => rfl⟩
  | @displaced table evicted u hk _ he hf =>
    have hx := he.effect
    have hns : sequence∉evicted := fun hm => (hx.victims_held sequence hm).1 rfl
    have ha := (he.invariant h).reclaimable_add_own ((hx.spared_lookup sequence hns).trans hk)
    rw [←hex hk]
    exact ⟨fun _ => by omega,fun _ => rfl⟩

/-- Registering a new sequence makes it known, with no tokens. -/
theorem register_booked (hn : sequence∉s.tables) :
    (∀ other, other∈(s.register sequence).tables ↔ other=sequence ∨ other∈s.tables) ∧
      ∀ other, (s.register sequence).tokensHeld other=s.tokensHeld other := by
  have hr : s.register sequence={s with
      tables := s.tables.insert sequence (.create sequence s.blockSize)
      admissionOrder := s.admissionOrder++[sequence]} := by
    rw [KVCacheManager.register,if_neg hn]
  rw [hr]
  refine ⟨fun other => AList.mem_insert s.tables,?_⟩
  intro other
  by_cases he : other=sequence
  · subst he
    have hz : s.tokensHeld other=0 := by
      rw [KVCacheManager.tokensHeld,AList.lookup_eq_none.mpr hn]
    rw [hz,tokensHeld_of_lookup (AList.lookup_insert _)]
    rfl
  · exact tokensHeld_congr (AList.lookup_insert_ne he)

/-- Asking for the first cache of a new sequence: it is known from then on,
it is granted exactly when its tokens fit the pool, and then it holds them. -/
theorem admit_booked (h : PoolInvariant total blockSize policy s) (hn : sequence∉s.tables)
    (ht : 0<tokens) :
    ∃ outcome, KVCacheManager.admitSequence sequence tokens s=
        .ok outcome (after (.admitSequence sequence tokens) s) ∧
      Booked sequence tokens (s.register sequence) outcome
        (after (.admitSequence sequence tokens) s) ∧
      (outcome.ok=true ↔ tokens ⌈/⌉ blockSize≤total) ∧
      s.tokensHeld sequence=0 := by
  have hi := register_invariant h sequence
  have hm := reserve_meets hi (register_lookup s sequence) ht
  obtain ⟨outcome,t,hr,hres,_⟩ := hm.returns
  have hx : KVCacheManager.admitSequence sequence tokens s=.ok outcome t :=
    (admitSequence_eq sequence ht s).trans hr
  have ha : after (.admitSequence sequence tokens) s=t := by
    rw [after,CacheCall.run,bind_ok hx]
    rfl
  have hz : s.tokensHeld sequence=0 := by
    rw [KVCacheManager.tokensHeld,AList.lookup_eq_none.mpr hn]
  have hok := reserves_ok_iff hi hres
  rw [(register_booked hn).2 sequence,hz,Nat.zero_add] at hok
  rw [ha]
  exact ⟨outcome,hx,reserves_booked hres,hok,hz⟩

/-- One more token for a known sequence. -/
theorem extend_booked (h : PoolInvariant total blockSize policy s) (hk : sequence∈s.tables) :
    ∃ outcome, KVCacheManager.extend sequence 1 s=
        .ok outcome (after (.extend sequence 1) s) ∧
      Booked sequence 1 s outcome (after (.extend sequence 1) s) ∧
      PoolInvariant total blockSize policy (after (.extend sequence 1) s) := by
  rcases extend_cases h sequence with ⟨outcome,left,hx,hr,hi⟩ | ⟨hn,_⟩
  · have ha : after (.extend sequence 1) s=left := by
      rw [after,CacheCall.run,bind_ok hx]
      rfl
    rw [ha]
    exact ⟨outcome,hx,reserves_booked hr,hi⟩
  · exact absurd hk hn

/-- Releasing makes a sequence unknown and leaves the others' tokens alone. -/
theorem release_booked (h : PoolInvariant total blockSize policy s) (sequence : SequenceId) :
    (∀ other, other∈(after (.release sequence) s).tables ↔
      other≠sequence ∧ other∈s.tables) ∧
    ∀ other, other≠sequence →
      (after (.release sequence) s).tokensHeld other=s.tokensHeld other := by
  have hr := (release_eq h sequence).1
  cases hk : s.tables.lookup sequence with
  | none =>
    have hs : KVCacheManager.release sequence s=.ok () s := by
      rw [KVCacheManager.release,bind_get,hk]
      rfl
    have ha : after (.release sequence) s=s := (EStateM.Result.ok.inj (hr.symm.trans hs)).2
    have hn : sequence∉s.tables := AList.lookup_eq_none.mp hk
    rw [ha]
    refine ⟨fun other => ⟨fun hm => ⟨?_,hm⟩,And.right⟩,fun _ _ => rfl⟩
    intro he
    exact hn (he ▸ hm)
  | some table =>
    obtain ⟨_,_,hx,ht⟩ := (release_meets h hk).returns
    have ha : after (.release sequence) s=forgotten s sequence table :=
      (EStateM.Result.ok.inj (hr.symm.trans hx)).2.trans ht
    rw [ha]
    exact ⟨fun other => AList.mem_erase,
      fun other hn => tokensHeld_congr (AList.lookup_erase_ne hn)⟩

/-- Releasing several sequences. -/
theorem releaseEach_booked (sequences : List SequenceId) :
    ∀ {s : KVCacheManager}, PoolInvariant total blockSize policy s →
      (∀ other, other∈(releaseEach sequences s).tables ↔
        other∉sequences ∧ other∈s.tables) ∧
      ∀ other, other∉sequences → (releaseEach sequences s).tokensHeld other=s.tokensHeld other := by
  induction sequences with
  | nil =>
    intro s _
    exact ⟨fun other => (and_iff_right List.not_mem_nil).symm,fun _ _ => rfl⟩
  | cons sequence rest ih =>
    intro s h
    obtain ⟨hk,ht⟩ := release_booked h sequence
    obtain ⟨hrk,hrt⟩ := ih (release_eq h sequence).2
    refine ⟨?_,?_⟩
    · intro other
      have hr := hrk other
      rw [hk other] at hr
      rw [List.mem_cons,not_or,and_assoc,and_left_comm]
      exact hr
    · intro other hn
      rw [List.mem_cons,not_or] at hn
      exact (hrt other hn.2).trans (ht other hn.1)

/-- A pass over known sequences returns, and books a token to everyone it
does not drop. -/
theorem extendEach_booked (sequences : List SequenceId) :
    ∀ {s : KVCacheManager}, PoolInvariant total blockSize policy s → sequences.Nodup →
      (∀ sequence∈sequences, sequence∈s.tables) →
      ∃ answers t, extendEach sequences s=.ok answers t ∧
        PoolInvariant total blockSize policy t ∧ (∀ other, other∈t.tables ↔ other∈s.tables) ∧
        ∀ other, other∉casualties answers →
          t.tokensHeld other=s.tokensHeld other+sequences.count other := by
  induction sequences with
  | nil => exact fun {s} h _ _ => ⟨[],s,rfl,h,fun _ => Iff.rfl,fun _ _ => rfl⟩
  | cons sequence rest ih =>
    intro s h hd hk
    obtain ⟨hn,hd⟩ := List.nodup_cons.mp hd
    obtain ⟨outcome,hx,hb,hi⟩ := extend_booked h (hk sequence List.mem_cons_self)
    obtain ⟨answers,t,hr,ht,hkn,htk⟩ := ih hi hd
      (fun other hm => (hb.known other).mpr (hk other (List.mem_cons_of_mem _ hm)))
    refine ⟨(sequence,outcome)::answers,t,?_,ht,fun other => (hkn other).trans (hb.known other),?_⟩
    · rw [extendEach,bind_ok hx,bind_ok hr]
      rfl
    · intro other ho
      have hc : casualties ((sequence,outcome)::answers)=
          (if outcome.ok then outcome.preempted else [sequence])++casualties answers := rfl
      rw [hc,List.mem_append,not_or] at ho
      rw [htk other ho.2,List.count_cons]
      by_cases he : other=sequence
      · subst he
        have hok : outcome.ok=true := by
          by_contra hf
          rw [if_neg hf] at ho
          exact ho.1 (List.mem_singleton_self _)
        rw [hb.own hok,List.count_eq_zero_of_not_mem hn,if_pos (beq_self_eq_true other)]
      · have hv : other∉outcome.preempted := by
          intro hm
          cases hok : outcome.ok with
          | true => exact ho.1 (by rw [hok,if_pos rfl]; exact hm)
          | false =>
            rw [(hb.refused hok).1] at hm
            exact absurd hm List.not_mem_nil
        rw [hb.others other he hv,if_neg (fun hbe => he (eq_of_beq hbe).symm)]
        omega

end CudaForge.CacheBooks
