import CudaForge.NativeEvictions
import CudaForge.ReservationFeasibility

/-!
# A reservation evicts the shortest prefix of its line

A granted reservation gains its sequence some blocks. The sequences it lists
as preempted are the shortest prefix of the policy's victims whose blocks
cover these together with the free ones, and every other sequence keeps what
it holds. So it is in either manager, over any pool; a native call that raises
has still evicted a prefix of the line.
-/

namespace CudaForge.ShortestEvictions

open ExceptionState CacheBlocks CacheManager CacheInvariant CacheReservation CachePlacement
open CacheNative CacheConformance CacheScripts NativeRuns RefusedReservations
open ReservationFeasibility EvictionOrder VictimOrder NativeEvictions TransitionRuns

variable {total blockSize tokens : ℕ} {policy : PreemptionPolicy} {s t : KVCacheManager}
variable {u v : NativeManager} {sequence : SequenceId} {evicted : List SequenceId}
variable {creating : Bool} {grantable : Prop} {before start left : Standing}
variable {outcome : AdmissionOutcome}

/-- The blocks a sequence holds. -/
def blocksOf (standing : Standing) (sequence : SequenceId) : ℕ :=
  match standing.held sequence with
  | none => 0
  | some (_,blocks) => blocks.length

/-- The victims of a requester, in turn. -/
def victims (policy : PreemptionPolicy) (standing : Standing) (requester : SequenceId) :
    List SequenceId :=
  victimOrder policy (blocksOf standing) (others standing.admissionOrder requester)

/-- The blocks of an observed table. -/
theorem blocksOf_standing (s : KVCacheManager) : blocksOf (standing s)=s.blocksHeld := by
  funext k
  simp only [blocksOf,standing,KVCacheManager.blocksHeld]
  cases s.tables.lookup k <;> rfl

theorem blocksOf_native (u : NativeManager) : blocksOf (nativeStanding u)=u.blocksHeld := by
  funext k
  simp only [blocksOf,nativeStanding,NativeManager.blocksHeld]
  cases u.tables.lookup k <;> rfl

/-- Sequences that hold the same hold the same blocks. -/
theorem blocksOf_congr {k : SequenceId} (hk : left.held k=before.held k) :
    blocksOf left k=blocksOf before k := by
  rw [blocksOf,hk,blocksOf]

/-- What a reservation for a sequence did, wherever it ended. -/
structure Reserved (policy : PreemptionPolicy) (creating : Bool) (grantable : Prop)
    (sequence : SequenceId) (before left : Standing) (evicted : List SequenceId) : Prop where
  /-- It evicted along the line. -/
  along : evicted <+: victims policy before sequence
  /-- The others keep what they hold. -/
  spared : ∀ other, other≠sequence → other∉evicted → left.held other=before.held other
  /-- The victims hold no blocks. -/
  emptied : ∀ other∈evicted, blocksOf left other=0
  /-- At most an admission made the sequence known, at the end of the order. -/
  order : left.admissionOrder=before.admissionOrder ∨ creating=true ∧
    sequence∉before.admissionOrder ∧ left.admissionOrder=before.admissionOrder++[sequence]
  /-- A known sequence gains blocks only where they could be granted. -/
  gains : blocksOf left sequence≠blocksOf before sequence → sequence∈before.admissionOrder →
    grantable

/-- What a granted reservation says of its evictions. -/
structure ShortestEviction (policy : PreemptionPolicy) (before left : Standing)
    (requester : SequenceId) (outcome : AdmissionOutcome) (needed : ℕ) : Prop where
  /-- The requester gained the blocks it needed. -/
  gained : blocksOf left requester=blocksOf before requester+needed
  /-- The preempted are the shortest prefix of the line that covers them. -/
  shortest : ShortestPrefix needed before.freeBlocks (blocksOf before)
    (victims policy before requester) outcome.preempted
  /-- There are none exactly when enough blocks were free. -/
  none_iff : outcome.preempted=[] ↔ needed≤before.freeBlocks
  /-- The result says whether there are any. -/
  result_iff : outcome.result=.preemptedOthers ↔ outcome.preempted≠[]
  /-- The others keep what they hold. -/
  spared : ∀ other, other≠requester → other∉outcome.preempted →
    left.held other=before.held other

/-- What a reservation answers agrees with its evictions. -/
def ReservedSo (policy : PreemptionPolicy) (creating : Bool) (grantable : Prop)
    (sequence : SequenceId) (before : Standing) (reply : Option CacheReply) (left : Standing) :
    Prop :=
  ∃ evicted, Reserved policy creating grantable sequence before left evicted ∧
    ∀ outcome, reply=some (.outcome outcome) → evicted=outcome.preempted ∧
      (outcome.ok=true → ∃ needed, ShortestEviction policy before left sequence outcome needed)

/-- A reservation that changed nothing. -/
theorem Reserved.idle : Reserved policy creating grantable sequence before before [] :=
  ⟨List.nil_prefix,fun _ _ _ => rfl,nofun,Or.inl rfl,fun hb => absurd rfl hb⟩

/-- A reservation of nothing. -/
theorem ReservedSo.nothing :
    ReservedSo policy creating grantable sequence before (some (.outcome {})) before := by
  refine ⟨[],.idle,?_⟩
  intro outcome ho
  rw [Option.some.injEq,CacheReply.outcome.injEq] at ho
  subst ho
  refine ⟨rfl,fun _ => ⟨0,rfl,.nothing (Nat.zero_le _),?_,?_,fun _ _ _ => rfl⟩⟩
  · exact iff_of_true rfl (Nat.zero_le _)
  · exact iff_of_false nofun (fun hn => hn rfl)

/-- A reservation that raised and changed nothing. -/
theorem ReservedSo.raised :
    ReservedSo policy creating grantable sequence before none before :=
  ⟨[],.idle,nofun⟩

/-- A newcomer was registered. -/
structure Registered (sequence : SequenceId) (before start : Standing) : Prop where
  unknown : sequence∉before.admissionOrder
  order : start.admissionOrder=before.admissionOrder++[sequence]
  blocks_eq : blocksOf start=blocksOf before
  free_eq : start.freeBlocks=before.freeBlocks
  held_eq : ∀ other, other≠sequence → start.held other=before.held other

/-- A newcomer does not change its line. -/
theorem Registered.victims_eq (h : Registered sequence before start) :
    victims policy start sequence=victims policy before sequence := by
  have ho : others start.admissionOrder sequence=others before.admissionOrder sequence := by
    rw [h.order,others,List.filter_append,List.filter_cons_of_neg (by simp only [ne_eq,not_true,
      decide_false,Bool.false_eq_true,not_false_eq_true]),List.filter_nil,List.append_nil,others]
  rw [victims,victims,h.blocks_eq,ho]

/-- A reservation for a newcomer, seen from before it was registered. -/
theorem ReservedSo.of_registered {reply : Option CacheReply} {grantable' : Prop}
    (h : Registered sequence before start)
    (hr : ReservedSo policy true grantable' sequence start reply left) :
    ReservedSo policy true grantable sequence before reply left := by
  obtain ⟨evicted,hd,hok⟩ := hr
  have hspared : ∀ {k : SequenceId}, k≠sequence → left.held k=start.held k →
      left.held k=before.held k := fun hk he => he.trans (h.held_eq _ hk)
  refine ⟨evicted,⟨h.victims_eq ▸ hd.along,?_,hd.emptied,Or.inr ⟨rfl,h.unknown,?_⟩,?_⟩,?_⟩
  · exact fun other hn hm => hspared hn (hd.spared other hn hm)
  · rcases hd.order with ho | ⟨_,hn,_⟩
    · rw [ho,h.order]
    · rw [h.order] at hn
      exact absurd (List.mem_append_right _ (List.mem_singleton_self _)) hn
  · exact fun _ hm => absurd hm h.unknown
  · intro outcome ho
    obtain ⟨he,hs⟩ := hok outcome ho
    refine ⟨he,fun hgranted => ?_⟩
    obtain ⟨needed,hsh⟩ := hs hgranted
    have hshort := hsh.shortest
    rw [h.victims_eq,h.free_eq,h.blocks_eq] at hshort
    refine ⟨needed,?_,hshort,h.free_eq ▸ hsh.none_iff,hsh.result_iff,?_⟩
    · rw [hsh.gained,h.blocks_eq]
    · exact fun other hn hm => hspared hn (hsh.spared other hn hm)

/-- The line of a request. -/
theorem exists_line (policy : PreemptionPolicy) {order : List SequenceId} (hn : order.Nodup)
    (requester : SequenceId) : ∃ l : VictimLine SequenceId, ∀ blocks,
      l.line blocks=victimOrder policy blocks (others order requester) :=
  ⟨policyLine policy (others order requester) (hn.filter _),policyLine_line policy _⟩

/-- A reservation on the Python manager asks for blocks, and for no more than
the pool has. -/
def PyGrantable (s : KVCacheManager) (sequence : SequenceId) (tokens : ℕ) : Prop :=
  tokens≠0 ∧ 0<s.additionalBlocksFor sequence tokens ∧
    s.additionalBlocksFor sequence tokens ≤ s.totalBlocks

/-- The Python manager makes room by turns at the line. -/
theorem makesRoom_turns {l : VictimLine SequenceId} {needed : ℕ} {mid : KVCacheManager}
    (hm : MakesRoom needed sequence s outcome mid)
    (hl : ∀ blocks, l.line blocks=
      victimOrder s.policy blocks (others s.admissionOrder sequence)) :
    Turns l needed s.freeBlocks s.blocksHeld outcome.preempted ∧
      needed ≤ s.freeBlocks+(outcome.preempted.map s.blocksHeld).sum ∧
      (outcome.result=.preemptedOthers ↔ outcome.preempted≠[]) := by
  cases hm with
  | fits hf => exact ⟨.stop,hf,iff_of_false nofun (fun hn => hn rfl)⟩
  | displaced hf he ht =>
    obtain ⟨hturns,hsum⟩ := evicts_turns he hl
    refine ⟨hturns,hsum ▸ ht,iff_of_true rfl ?_⟩
    rintro rfl
    rw [List.map_nil,List.sum_nil] at hsum
    omega

/-- Making room empties the victims and touches nobody else. -/
theorem makesRoom_frame {needed : ℕ} {mid : KVCacheManager}
    (hm : MakesRoom needed sequence s outcome mid) :
    mid.admissionOrder=s.admissionOrder ∧
      (∀ other, other∉outcome.preempted → mid.tables.lookup other=s.tables.lookup other) ∧
      ∀ other∈outcome.preempted, mid.blocksHeld other=0 := by
  cases hm with
  | fits _ => exact ⟨rfl,fun _ _ => rfl,nofun⟩
  | displaced _ he _ =>
    refine ⟨he.effect.order_eq,he.effect.spared_lookup,?_⟩
    intro other hm
    rw [blocksHeld_of_lookup (he.effect.emptied_lookup other hm)]
    rfl

/-- A reservation on the Python manager evicts along the line. -/
theorem py_reserves (h : PoolInvariant total blockSize policy s) (ht : 0<tokens)
    (hr : Reserves sequence tokens s outcome t) :
    ReservedSo policy creating (PyGrantable s sequence tokens) sequence (standing s)
      (some (.outcome outcome)) (standing t) := by
  obtain ⟨table,hk,⟨_,rfl,rfl⟩ | ⟨hn,mid,hm,rfl⟩⟩ := reserves_room h hr
  · refine ⟨[],.idle,?_⟩
    intro outcome ho
    rw [Option.some.injEq,CacheReply.outcome.injEq] at ho
    subst ho
    exact ⟨rfl,nofun⟩
  · have hnodup : s.admissionOrder.Nodup := h.partitioned.order_nodup
    obtain ⟨l,hl⟩ := exists_line s.policy hnodup sequence
    obtain ⟨hturns,hcov,hres⟩ := makesRoom_turns hm hl
    obtain ⟨horder,hspared,hempty⟩ := makesRoom_frame hm
    obtain ⟨_,hfree,_,_,hself⟩ := hm.facts h.partitioned
    have hshort := hturns.shortest hcov
    rw [hl,h.policy_eq] at hshort
    have hgained : blocksOf (standing (granted mid sequence table
        (s.additionalBlocksFor sequence tokens) tokens)) sequence=
          blocksOf (standing s) sequence+s.additionalBlocksFor sequence tokens := by
      have hle : s.additionalBlocksFor sequence tokens ≤ mid.allocator.free.length := hfree
      rw [blocksOf_standing,blocksOf_standing,blocksHeld_of_lookup hk,
        blocksHeld_of_lookup (AList.lookup_insert _),List.length_append,List.length_take,
        Nat.min_eq_left hle]
    have hheld : ∀ other, other≠sequence → other∉outcome.preempted →
        (standing (granted mid sequence table (s.additionalBlocksFor sequence tokens)
          tokens)).held other=(standing s).held other := by
      intro other hn hv
      simp only [standing,granted,AList.lookup_insert_ne hn,hspared other hv]
    refine ⟨outcome.preempted,⟨?_,hheld,?_,Or.inl horder,?_⟩,?_⟩
    · rw [victims,blocksOf_standing]
      exact hshort.chosen_prefix
    · intro other hv
      have hne : other≠sequence := fun he => hself (he ▸ hv)
      rw [blocksOf_standing,←hempty other hv,KVCacheManager.blocksHeld,granted,
        AList.lookup_insert_ne hne]
      rfl
    · intro hne _
      exact ⟨by omega,by omega,by have := h.totalBlocks_eq; omega⟩
    · intro outcome' ho
      rw [Option.some.injEq,CacheReply.outcome.injEq] at ho
      subst ho
      refine ⟨rfl,fun _ => ⟨_,hgained,?_,?_,hres,hheld⟩⟩
      · rw [victims,blocksOf_standing]
        exact hshort
      · exact hshort.nil_iff

/-- The Python manager registers a newcomer. -/
theorem py_registered (h : PoolInvariant total blockSize policy s) (hn : sequence∉s.tables) :
    Registered sequence (standing s) (standing (s.register sequence)) := by
  have hr : s.register sequence={s with
      tables := s.tables.insert sequence (.create sequence s.blockSize)
      admissionOrder := s.admissionOrder++[sequence]} := if_neg hn
  have hother : ∀ other, other≠sequence →
      (s.register sequence).tables.lookup other=s.tables.lookup other := by
    intro other he
    rw [hr]
    exact AList.lookup_insert_ne he
  refine ⟨fun hm => hn ((h.mem_order sequence).mp hm),by rw [hr]; rfl,?_,by rw [hr]; rfl,?_⟩
  · rw [blocksOf_standing,blocksOf_standing]
    funext k
    by_cases he : k=sequence
    · subst he
      rw [blocksHeld_of_lookup (newcomer_lookup hn),KVCacheManager.blocksHeld,
        AList.lookup_eq_none.mpr hn]
      rfl
    · rw [KVCacheManager.blocksHeld,hother k he]
      rfl
  · intro other he
    simp only [standing,hother other he]

/-- A reservation on the Python manager, from before it. -/
theorem py_reservation (h : PoolInvariant total blockSize policy s) (creating : Bool)
    (sequence : SequenceId) (tokens : ℕ) :
    ReservedSo policy creating (PyGrantable s sequence tokens) sequence (standing s)
      (answered ((reservation creating sequence tokens).run s)).1
      (standing (answered ((reservation creating sequence tokens).run s)).2) := by
  cases creating with
  | true =>
    change ReservedSo _ _ _ _ _ (answered ((CacheCall.admitSequence sequence tokens).run s)).1
      (standing (answered ((CacheCall.admitSequence sequence tokens).run s)).2)
    rcases call_cases h (.admitSequence sequence tokens) with hm | ⟨_,_,he,_⟩
    · obtain ⟨reply,t,hx,he,_⟩ := hm.returns
      rw [hx]
      cases he with
      | admittedNothing => exact .nothing
      | @admitted _ _ outcome _ ht hr =>
        have hi := register_invariant h sequence
        by_cases hk : sequence∈s.tables
        · have hs : s.register sequence=s := if_pos hk
          rw [hs] at hr
          exact py_reserves h ht hr
        · exact .of_registered (py_registered h hk) (py_reserves hi ht hr)
    · exact absurd he (by simp only [reduceCtorEq,not_false_eq_true])
  | false =>
    change ReservedSo _ _ _ _ _ (answered ((CacheCall.extend sequence tokens).run s)).1
      (standing (answered ((CacheCall.extend sequence tokens).run s)).2)
    rcases call_cases h (.extend sequence tokens) with hm | ⟨_,_,_,_,_,hx⟩
    · obtain ⟨reply,t,hx,he,_⟩ := hm.returns
      rw [hx]
      cases he with
      | extendedNothing => exact .nothing
      | extended ht hr => exact py_reserves h ht hr
    · rw [hx]
      exact .raised

/-- What a native reservation did, observed. -/
theorem displaced_reserved {l : VictimLine SequenceId} (hp : u.policy=policy)
    (hl : LineOf l u sequence) (hd : Displaced l sequence tokens u evicted v) :
    Reserved policy creating (Grantable u sequence tokens) sequence (nativeStanding u)
      (nativeStanding v) evicted := by
  have halong := hd.victims
  rw [hl,hp] at halong
  refine ⟨?_,?_,?_,Or.inl hd.keeps.order_eq,fun hb _ => hd.gains ?_⟩
  · rw [victims,blocksOf_native]
    exact halong
  · intro other hn hm
    simp only [nativeStanding,hd.spared other hn hm]
  · intro other hm
    rw [blocksOf_native]
    exact hd.emptied other hm
  · rwa [blocksOf_native,blocksOf_native] at hb

/-- What a granted native reservation says, observed. -/
theorem served_shortest {l : VictimLine SequenceId} (hp : u.policy=policy)
    (hl : LineOf l u sequence) (hd : Displaced l sequence tokens u outcome.preempted v)
    (hs : Served l sequence u outcome v) :
    ∃ needed, ShortestEviction policy (nativeStanding u) (nativeStanding v) sequence outcome
      needed := by
  obtain ⟨needed,hgained,hshort,hres⟩ := hs
  rw [hl,hp] at hshort
  refine ⟨needed,?_,?_,hshort.nil_iff,hres,fun other hn hm => ?_⟩
  · rw [blocksOf_native,blocksOf_native]
    exact hgained
  · rw [victims,blocksOf_native]
    exact hshort
  · simp only [nativeStanding,hd.spared other hn hm]

/-- The native manager registers a newcomer. -/
theorem native_registered (h : Orderly u) (hn : sequence∉u.tables) :
    Registered sequence (nativeStanding u) (nativeStanding (u.register sequence)) := by
  have hr : u.register sequence={u with
      tables := u.tables.insert sequence (.create sequence u.blockSize)
      admissionOrder := u.admissionOrder++[sequence]} := if_neg hn
  have hother : ∀ other, other≠sequence →
      (u.register sequence).tables.lookup other=u.tables.lookup other := by
    intro other he
    rw [hr]
    exact Finmap.lookup_insert_of_ne _ he
  refine ⟨fun hm => hn ((h.order_known sequence).mp hm),by rw [hr]; rfl,?_,by rw [hr]; rfl,?_⟩
  · rw [blocksOf_native,blocksOf_native]
    funext k
    by_cases he : k=sequence
    · subst he
      rw [NativeManager.blocksHeld,NativeManager.blocksHeld,hr,Finmap.lookup_insert,
        Finmap.lookup_eq_none.mpr hn]
      rfl
    · exact blocksHeld_congr (hother k he)
  · intro other he
    simp only [nativeStanding,hother other he]

/-- What a native reservation call left: its evictions agree with its answer,
and the manager is orderly. -/
def NativeReserved (policy : PreemptionPolicy) (creating : Bool) (sequence : SequenceId)
    (tokens : ℕ) (u : NativeManager) (answer : Option CacheReply×NativeManager) : Prop :=
  ReservedSo policy creating (Grantable u sequence tokens) sequence (nativeStanding u) answer.1
      (nativeStanding answer.2) ∧
    Orderly answer.2 ∧ answer.2.policy=policy

/-- A native reservation for a known sequence evicts along the line. -/
theorem native_reserves (h : Orderly u) (hp : u.policy=policy) (hm : sequence∈u.tables)
    (tokens : ℕ) :
    NativeReserved policy creating sequence tokens u
      (answered (runNative (.extend sequence tokens) u)) := by
  obtain ⟨l,hl⟩ := exists_line u.policy h.order_nodup sequence
  rw [runNative,answered_map]
  rcases (reserve_ends tokens h.single hm hl).endings with
    ⟨outcome,v,hx,hd,hok⟩ | ⟨e,v,hx,evicted,hd⟩
  · rw [NativeManager.extend,hx]
    refine ⟨⟨outcome.preempted,displaced_reserved hp hl hd,?_⟩,hd.keeps.orderly h,
      hd.keeps.policy_eq.trans hp⟩
    intro outcome' ho
    change some (CacheReply.outcome outcome)=_ at ho
    rw [Option.some.injEq,CacheReply.outcome.injEq] at ho
    subst ho
    exact ⟨rfl,fun hg => served_shortest hp hl hd (hok hg)⟩
  · rw [NativeManager.extend,hx]
    exact ⟨⟨evicted,displaced_reserved hp hl hd,(by intros; contradiction)⟩,hd.keeps.orderly h,
      hd.keeps.policy_eq.trans hp⟩

/-- An extension of an unknown sequence raises and changes nothing. -/
theorem native_unknown (hn : sequence∉u.tables) (ht : 0<tokens) :
    answered (runNative (.extend sequence tokens) u)=(none,u) := by
  have he : Ends (NativeManager.reserve sequence tokens false) u (fun _ _ => False)
      (fun v => v=u) := by
    unfold NativeManager.reserve
    rw [if_neg (Nat.pos_iff_ne_zero.mp ht)]
    simp only [ends_bind,ends_modify,ends_get,Bool.false_eq_true,if_false,
      Finmap.lookup_eq_none.mpr hn,ends_throw]
  rw [runNative,answered_map]
  rcases he.endings with ⟨_,_,_,hf⟩ | ⟨e,v,hx,rfl⟩
  · exact hf.elim
  · rw [NativeManager.extend,hx]
    rfl

/-- A native reservation, from before it. -/
theorem native_reservation (h : Orderly u) (hp : u.policy=policy) (creating : Bool)
    (sequence : SequenceId) (tokens : ℕ) :
    NativeReserved policy creating sequence tokens u
      (answered (runNative (reservation creating sequence tokens) u)) := by
  have hnothing : NativeReserved policy creating sequence 0 u (some (.outcome {}),u) :=
    ⟨.nothing,h,hp⟩
  cases creating with
  | true =>
    change NativeReserved _ _ _ _ _ (answered (runNative (.admitSequence sequence tokens) u))
    rcases Nat.eq_zero_or_pos tokens with rfl | ht
    · exact hnothing
    · have hx : runNative (.admitSequence sequence tokens) u=
          runNative (.extend sequence tokens) (u.register sequence) := by
        change EStateM.bind (NativeManager.admitSequence sequence tokens) _ u=
          EStateM.bind (NativeManager.extend sequence tokens) _ (u.register sequence)
        rw [EStateM.bind,EStateM.bind,nativeAdmit_eq sequence ht,NativeManager.extend]
      obtain ⟨ho,hm⟩ := register_orderly h sequence
      rw [hx]
      by_cases hk : sequence∈u.tables
      · have hs : u.register sequence=u := if_pos hk
        rw [hs]
        exact native_reserves h hp hk tokens
      · have hpol : (u.register sequence).policy=policy := by
          rw [NativeManager.register,if_neg hk]
          exact hp
        obtain ⟨hr,hrest⟩ : NativeReserved policy true sequence tokens (u.register sequence) _ :=
          native_reserves ho hpol hm tokens
        exact ⟨.of_registered (native_registered h hk) hr,hrest⟩
  | false =>
    change NativeReserved _ _ _ _ _ (answered (runNative (.extend sequence tokens) u))
    by_cases hk : sequence∈u.tables
    · exact native_reserves h hp hk tokens
    · rcases Nat.eq_zero_or_pos tokens with rfl | ht
      · exact hnothing
      · rw [native_unknown hk ht]
        exact ⟨.raised,h,hp⟩

/-- A preemption or a release lets the sequence go. -/
theorem native_letsGo (h : Orderly u) (sequence : SequenceId) :
    LetsGo sequence u (nativeAfter (.preempt sequence) u) ∧
      LetsGo sequence u (nativeAfter (.release sequence) u) := by
  constructor
  · rw [nativeAfter,runNative,answered_map]
    rcases (preempt_ends h sequence).endings with ⟨_,_,hx,hl⟩ | ⟨_,_,hx,hl⟩
    · rw [hx]
      exact hl
    · rw [hx]
      exact hl
  · rw [nativeAfter,runNative]
    have he : Ends (do NativeManager.release sequence; pure CacheReply.released) u
        (fun _ v => LetsGo sequence u v) (fun v => LetsGo sequence u v) := by
      simp only [ends_bind,ends_pure]
      exact release_ends h sequence
    rcases he.endings with ⟨_,_,hx,hl⟩ | ⟨_,_,hx,hl⟩
    · rw [hx]
      exact hl
    · rw [hx]
      exact hl

/-- Every reachable native manager is orderly, over any pool. -/
theorem reaches_orderly (hu : (nativeMachine total blockSize policy).Reaches u) :
    Orderly u ∧ u.policy=policy := by
  refine hu.invariant (P := fun u => Orderly u ∧ u.policy=policy) ?_ ?_
  · intro u hc
    change NativeManager.create total blockSize policy=.ok u at hc
    unfold NativeManager.create NativeAllocator.create at hc
    split at hc
    · exact absurd hc (by simp only [reduceCtorEq,not_false_eq_true])
    · rename_i allocator ha
      split_ifs at ha
      rw [Except.ok.injEq] at ha hc
      subst ha hc
      refine ⟨⟨?_,List.nodup_nil,fun k => iff_of_false List.not_mem_nil nofun⟩,rfl⟩
      intro count hm
      rw [List.eq_of_mem_replicate hm]
      exact Nat.zero_le 1
  · rintro u call v ⟨h,hp⟩ ⟨_,rfl⟩
    cases call with
    | admitSequence sequence tokens => exact (native_reservation h hp true sequence tokens).2
    | extend sequence tokens => exact (native_reservation h hp false sequence tokens).2
    | preempt sequence =>
      have hl := (native_letsGo h sequence).1
      exact ⟨hl.orderly,hl.policy_eq.trans hp⟩
    | release sequence =>
      have hl := (native_letsGo h sequence).2
      exact ⟨hl.orderly,hl.policy_eq.trans hp⟩

/-- The Python manager of four blocks after two admissions, with one free
block. -/
def crowdedPy : KVCacheManager :=
  after (.admitSequence 2 2) (after (.admitSequence 1 4) freshPy)

/-- The native one. -/
def crowdedNative : NativeManager :=
  nativeAfter (.admitSequence 2 2) (nativeAfter (.admitSequence 1 4) freshNative)

end CudaForge.ShortestEvictions
