import CudaForge.NativeRuns
import CudaForge.VictimOrder

/-!
# Evictions of the native manager over any pool

Without a bound on the pool its block ids may repeat, and returning a block
may raise. Still no block has more than one reference, the admission order
lists the known sequences once each, and the eviction loop takes turns at the
line of victims: what a call that returns says of its evictions needs no
more. Each operation is described on both its endings.
-/

namespace CudaForge.NativeEvictions

open ExceptionState CacheBlocks CacheManager CacheNative CacheScripts NativeRuns EvictionOrder
open VictimOrder TransitionRuns
open CacheNative.NativeManager

variable {u v : NativeManager} {sequence requester victim : SequenceId}
variable {table : SequenceBlockTable} {l : VictimLine SequenceId} {needed tokens : ℕ}
variable {evicted : List SequenceId}

/-- No block has more than one reference. -/
def Single (u : NativeManager) : Prop := ∀ count∈u.allocator.referenceCounts, count≤1

/-- What holds of every reachable native manager, over any pool. -/
structure Orderly (u : NativeManager) : Prop where
  single : Single u
  order_nodup : u.admissionOrder.Nodup
  order_known : ∀ k, k∈u.admissionOrder ↔ k∈u.tables

/-- What the inner operations keep. -/
structure Keeps (u v : NativeManager) : Prop where
  single : Single v
  policy_eq : v.policy=u.policy
  order_eq : v.admissionOrder=u.admissionOrder
  known : ∀ k, k∈v.tables ↔ k∈u.tables

theorem Keeps.refl (h : Single u) : Keeps u u := ⟨h,rfl,rfl,fun _ => Iff.rfl⟩

theorem Keeps.trans {w : NativeManager} (huv : Keeps u v) (hvw : Keeps v w) : Keeps u w :=
  ⟨hvw.single,hvw.policy_eq.trans huv.policy_eq,hvw.order_eq.trans huv.order_eq,
    fun k => (hvw.known k).trans (huv.known k)⟩

/-- Inner operations keep a manager orderly. -/
theorem Keeps.orderly (h : Orderly u) (hk : Keeps u v) : Orderly v :=
  ⟨hk.single,hk.order_eq ▸ h.order_nodup,
    fun k => by rw [hk.order_eq,h.order_known,hk.known]⟩

/-- Writing the table of a known sequence keeps who is known. -/
theorem mem_insert_known {tables : NativeTables} (hk : sequence∈tables) (k : SequenceId) :
    k∈tables.insert sequence table ↔ k∈tables := by
  rw [Finmap.mem_insert]
  exact or_iff_right_of_imp (fun he => he ▸ hk)

/-- A sequence with a table is known. -/
theorem known_of_lookup (hk : u.tables.lookup sequence=some table) : sequence∈u.tables :=
  Finmap.lookup_isSome.mp (by rw [hk]; rfl)

/-- A block given back was held once, and is free afterwards. -/
theorem release_single {a b : NativeAllocator} {block : BlockId}
    (h : ∀ count∈a.referenceCounts, count≤1) (hr : a.release block=.ok b) :
    (∀ count∈b.referenceCounts, count≤1) ∧ b.freeList.length=a.freeList.length+1 := by
  unfold NativeAllocator.release at hr
  cases hc : a.referenceCounts[block]? with
  | none =>
    rw [hc] at hr
    exact absurd hr (by simp only [reduceCtorEq,not_false_eq_true])
  | some count =>
    rw [hc] at hr
    cases count with
    | zero => exact absurd hr (by simp only [reduceCtorEq,not_false_eq_true])
    | succ count =>
      have hone := h _ (List.mem_of_getElem? hc)
      have hz : count=0 := by omega
      subst hz
      rw [Except.ok.injEq] at hr
      subst hr
      refine ⟨?_,rfl⟩
      intro count hm
      rcases List.mem_or_eq_of_mem_set hm with hm | rfl
      · exact h count hm
      · exact Nat.zero_le 1

/-- Returning blocks frees as many. -/
theorem releaseBlocks_ends (blocks : List BlockId) : ∀ {u : NativeManager}, Single u →
    Ends (releaseBlocks blocks) u
      (fun _ v => Single v ∧ v={u with allocator := v.allocator} ∧
        v.freeBlocks=u.freeBlocks+blocks.length)
      (fun v => Single v ∧ v={u with allocator := v.allocator}) := by
  induction blocks with
  | nil => exact fun h => ⟨h,rfl,rfl⟩
  | cons block rest ih =>
    intro u h
    simp only [releaseBlocks,ends_bind,ends_get]
    cases hr : u.allocator.release block with
    | error e => exact ⟨h,rfl⟩
    | ok allocator =>
      obtain ⟨hs,hf⟩ := release_single h hr
      simp only [ends_raising_ok,ends_set]
      refine (ih (u:={u with allocator := allocator}) hs).mono ?_ (fun _ hv => hv)
      rintro _ v ⟨hsv,hv,hfree⟩
      refine ⟨hsv,hv,?_⟩
      rw [hfree]
      simp only [freeBlocks,NativeAllocator.freeBlocks,hf,List.length_cons]
      omega

/-- Reclaiming a table frees its blocks and empties it. -/
theorem reclaim_ends (h : Single u) (hk : u.tables.lookup victim=some table) :
    Ends (reclaim victim table) u
      (fun _ v => Keeps u v ∧ v.freeBlocks=u.freeBlocks+table.blocks.length ∧
        v.tables=u.tables.insert victim (.create victim u.blockSize))
      (fun v => Keeps u v ∧ v.tables=u.tables) := by
  simp only [reclaim,ends_bind,ends_modify]
  refine (releaseBlocks_ends table.blocks h).mono ?_ ?_
  · rintro _ v ⟨hs,hv,hf⟩
    rw [hv] at hs hf ⊢
    exact ⟨⟨hs,rfl,rfl,mem_insert_known (known_of_lookup hk)⟩,hf,rfl⟩
  · rintro v ⟨hs,hv⟩
    rw [hv] at hs ⊢
    exact ⟨⟨hs,rfl,rfl,fun _ => Iff.rfl⟩,rfl⟩

/-- Emptying a table empties its holder in the books of blocks. -/
theorem emptied_books (hv : v.tables=u.tables.insert victim (.create victim u.blockSize)) :
    v.blocksHeld=emptiedAt u.blocksHeld victim := by
  funext k
  rw [blocksHeld,hv]
  by_cases he : k=victim
  · subst he
    rw [Finmap.lookup_insert,emptiedAt,Function.update_self]
    rfl
  · rw [Finmap.lookup_insert_of_ne _ he,emptiedAt_of_ne he]
    rfl

/-- The line of victims of a request. -/
def LineOf (l : VictimLine SequenceId) (u : NativeManager) (requester : SequenceId) : Prop :=
  ∀ blocks, l.line blocks=victimOrder u.policy blocks (others u.admissionOrder requester)

/-- What an eviction loop did, wherever it ended. -/
structure Evicting (l : VictimLine SequenceId) (needed : ℕ) (u : NativeManager)
    (evicted : List SequenceId) (v : NativeManager) : Prop where
  keeps : Keeps u v
  turns : Turns l needed u.freeBlocks u.blocksHeld evicted
  spared : ∀ other, other∉evicted → v.tables.lookup other=u.tables.lookup other
  emptied : ∀ other∈evicted, v.blocksHeld other=0

/-- Nothing was evicted. -/
theorem Evicting.nothing (h : Single u) : Evicting l needed u [] u :=
  ⟨.refl h,.stop,fun _ _ => rfl,nofun⟩

/-- A sequence whose table is the same holds the same blocks. -/
theorem blocksHeld_congr {k : SequenceId} (hk : v.tables.lookup k=u.tables.lookup k) :
    v.blocksHeld k=u.blocksHeld k := by
  rw [blocksHeld,hk]
  rfl

/-- One more turn before the others. -/
theorem Evicting.after {w : NativeManager} {later rest : List SequenceId}
    (hf : u.freeBlocks<needed) (hline : l.line u.blocksHeld=victim::rest) (hkeep : Keeps u v)
    (hfree : v.freeBlocks=u.freeBlocks+u.blocksHeld victim)
    (htables : v.tables=u.tables.insert victim (.create victim u.blockSize))
    (he : Evicting l needed v later w) : Evicting l needed u (victim::later) w := by
  have ht := he.turns
  rw [hfree,emptied_books htables] at ht
  refine ⟨hkeep.trans he.keeps,.turn hf hline ht,?_,?_⟩
  · intro other hn
    rw [List.mem_cons,not_or] at hn
    rw [he.spared other hn.2,htables,Finmap.lookup_insert_of_ne _ hn.1]
  · intro other hm
    by_cases hl : other∈later
    · exact he.emptied other hl
    · -- the victim itself, not evicted again
      have hv : other=victim := (List.mem_cons.mp hm).resolve_right hl
      rw [blocksHeld_congr (he.spared other hl),emptied_books htables,hv,emptiedAt,
        Function.update_self]

/-- The loop takes turns at the line, and frees what its victims held. -/
theorem evictLoop_ends (needed turns : ℕ) : ∀ {u : NativeManager}, Single u → LineOf l u requester →
    Ends (evictLoop needed requester turns) u
      (fun evicted v => Evicting l needed u evicted v ∧
        v.freeBlocks=u.freeBlocks+(evicted.map u.blocksHeld).sum)
      (fun v => ∃ evicted, Evicting l needed u evicted v) := by
  induction turns with
  | zero => exact fun h _ => ⟨.nothing h,rfl⟩
  | succ turns ih =>
    intro u h hl
    simp only [evictLoop,ends_bind,ends_get]
    by_cases hf : u.freeBlocks<needed
    · rw [if_pos hf]
      cases hc : u.chooseVictim requester with
      | none => exact ⟨.nothing h,rfl⟩
      | some victim =>
        dsimp only
        rw [native_chooseVictim_head,←hl] at hc
        obtain ⟨rest,hline⟩ := List.head?_eq_some_iff.mp hc
        cases hk : u.tables.lookup victim with
        | none => exact ⟨[],.nothing h⟩
        | some table =>
          have hheld : u.blocksHeld victim=table.blocks.length := by rw [blocksHeld,hk]
          simp only [ends_bind]
          refine (reclaim_ends h hk).mono ?_ ?_
          · rintro _ v ⟨hkeep,hfree,htables⟩
            rw [←hheld] at hfree
            have hlv : LineOf l v requester := by
              intro blocks
              rw [hkeep.policy_eq,hkeep.order_eq]
              exact hl blocks
            refine (ih hkeep.single hlv).mono ?_ ?_
            · rintro later w ⟨he,hsum⟩
              have hev := Evicting.after hf hline hkeep hfree htables he
              refine ⟨hev,?_⟩
              have hpre := hev.turns.isPrefix
              rw [hline] at hpre
              have hsub := (List.cons_prefix_cons.mp hpre).2
              rw [emptied_books htables,sum_behind hline (fun k hm => hsub.subset hm)] at hsum
              rw [hsum,hfree,List.map_cons,List.sum_cons,Nat.add_assoc]
            · rintro w ⟨later,he⟩
              exact ⟨victim::later,.after hf hline hkeep hfree htables he⟩
          · rintro v ⟨hkeep,htables⟩
            exact ⟨[],hkeep,.stop,fun other _ => by rw [htables],nofun⟩
    · rw [if_neg hf]
      exact ⟨.nothing h,rfl⟩

/-- Room is made by turns at the line. A result other than too little cache
means that enough is free, and says whether somebody paid for it. -/
theorem makeRoom_ends (h : Single u) (hl : LineOf l u requester) :
    Ends (makeRoom needed requester) u
      (fun outcome v => Evicting l needed u outcome.preempted v ∧
        (outcome.ok=true → needed≤u.freeBlocks+(outcome.preempted.map u.blocksHeld).sum ∧
          (outcome.result=.preemptedOthers ↔ outcome.preempted≠[])))
      (fun v => ∃ evicted, Evicting l needed u evicted v) := by
  simp only [makeRoom,evictUntil,ends_bind,ends_get]
  by_cases hf : u.freeBlocks<needed
  · rw [if_pos hf]
    simp only [ends_bind,ends_get]
    have hloop := evictLoop_ends needed u.tables.keys.card h hl
    split
    · simp only [ends_pure]
      rw [if_pos hf]
      exact ⟨.nothing h,fun hok => absurd hok (by decide)⟩
    · refine hloop.mono ?_ (fun _ hv => hv)
      rintro evicted v ⟨he,hfree⟩
      by_cases hv : v.freeBlocks<needed
      · rw [if_pos hv]
        exact ⟨he,(by intros; contradiction)⟩
      · rw [if_neg hv]
        refine ⟨he,fun _ => ⟨by dsimp only; omega,iff_of_true rfl ?_⟩⟩
        intro hn
        dsimp only at hn
        subst hn
        simp only [List.map_nil,List.sum_nil,Nat.add_zero] at hfree
        omega
  · rw [if_neg hf]
    refine ⟨.nothing h,fun _ => ⟨?_,iff_of_false (by intro hs; cases hs) (fun hn => hn rfl)⟩⟩
    simp only [List.map_nil,List.sum_nil,Nat.add_zero]
    omega

/-- Appending blocks concerns the sequence alone, and raises only when some
are asked for. -/
theorem appendBlocks_ends (needed : ℕ) : ∀ {u : NativeManager} (table : SequenceBlockTable),
    Single u → u.tables.lookup sequence=some table →
    Ends (appendBlocks sequence needed table) u
      (fun grown v => v.tables.lookup sequence=some grown ∧
        grown.blocks.length=table.blocks.length+needed ∧ Keeps u v ∧
        ∀ other, other≠sequence → v.tables.lookup other=u.tables.lookup other)
      (fun v => 0<needed ∧ Keeps u v ∧
        ∀ other, other≠sequence → v.tables.lookup other=u.tables.lookup other) := by
  induction needed with
  | zero => exact fun table h hk => ⟨hk,rfl,.refl h,fun _ _ => rfl⟩
  | succ needed ih =>
    intro u table h hk
    simp only [appendBlocks,ends_bind,ends_get]
    cases hfree : u.allocator.freeList with
    | nil =>
      simp only [NativeAllocator.allocate,hfree]
      exact ⟨Nat.succ_pos needed,.refl h,fun _ _ => rfl⟩
    | cons block rest =>
      simp only [NativeAllocator.allocate,hfree,ends_bind,ends_set]
      have hs : ∀ count∈u.allocator.referenceCounts.set block 1, count≤1 := by
        intro count hc
        rcases List.mem_or_eq_of_mem_set hc with hc | rfl
        · exact h count hc
        · exact Nat.le_refl 1
      have hkeep : Keeps u {u with
          allocator := {u.allocator with
            freeList := rest
            referenceCounts := u.allocator.referenceCounts.set block 1}
          tables := u.tables.insert sequence (table.appendBlock block)} :=
        ⟨hs,rfl,rfl,mem_insert_known (known_of_lookup hk)⟩
      have hother : ∀ other, other≠sequence →
          (u.tables.insert sequence (table.appendBlock block)).lookup other=
            u.tables.lookup other := fun other hn => Finmap.lookup_insert_of_ne _ hn
      refine (ih (table.appendBlock block) hkeep.single (Finmap.lookup_insert _)).mono ?_ ?_
      · rintro grown v ⟨hv,hg,hkv,ho⟩
        refine ⟨hv,?_,hkeep.trans hkv,fun other hn => (ho other hn).trans (hother other hn)⟩
        rw [hg,SequenceBlockTable.appendBlock,List.length_append,List.length_singleton]
        omega
      · rintro v ⟨_,hkv,ho⟩
        exact ⟨Nat.succ_pos needed,hkeep.trans hkv,
          fun other hn => (ho other hn).trans (hother other hn)⟩

/-- Recording tokens keeps the blocks of a table. -/
theorem addTokens_blocks {grown filled : SequenceBlockTable}
    (hf : nativeAddTokens grown tokens=.ok filled) : filled.blocks=grown.blocks := by
  unfold nativeAddTokens at hf
  split at hf
  · exact absurd hf (by simp only [reduceCtorEq,not_false_eq_true])
  · rw [Except.ok.injEq] at hf
    rw [←hf]

/-- A reservation of tokens asks for blocks, and for no more than the pool
has. -/
def Grantable (u : NativeManager) (sequence : SequenceId) (tokens : ℕ) : Prop :=
  tokens≠0 ∧ 0<u.additionalBlocksFor sequence tokens ∧
    u.additionalBlocksFor sequence tokens≤u.allocator.totalBlocks

/-- What a reservation did, wherever it ended. -/
structure Displaced (l : VictimLine SequenceId) (sequence : SequenceId) (tokens : ℕ)
    (u : NativeManager) (evicted : List SequenceId) (v : NativeManager) : Prop where
  keeps : Keeps u v
  victims : evicted <+: l.line u.blocksHeld
  spared : ∀ other, other≠sequence → other∉evicted →
    v.tables.lookup other=u.tables.lookup other
  emptied : ∀ other∈evicted, v.blocksHeld other=0
  gains : v.blocksHeld sequence≠u.blocksHeld sequence → Grantable u sequence tokens

/-- What a granted reservation says of its evictions. -/
def Served (l : VictimLine SequenceId) (sequence : SequenceId) (u : NativeManager)
    (outcome : AdmissionOutcome) (v : NativeManager) : Prop :=
  ∃ needed, v.blocksHeld sequence=u.blocksHeld sequence+needed ∧
    ShortestPrefix needed u.freeBlocks u.blocksHeld (l.line u.blocksHeld) outcome.preempted ∧
    (outcome.result=.preemptedOthers ↔ outcome.preempted≠[])

/-- The requester does not stand in its own line. -/
theorem requester_spared (hl : LineOf l u sequence) (blocks : SequenceId → ℕ) :
    sequence∉l.line blocks := by
  intro hm
  rw [hl,mem_victimOrder,mem_others] at hm
  exact hm.1.2 rfl

/-- A reservation that ends before any block is handed out. -/
theorem Evicting.displaced (he : Evicting l needed u evicted v) (hl : LineOf l u sequence) :
    Displaced l sequence tokens u evicted v := by
  have hpre := he.turns.isPrefix
  have hn : sequence∉evicted := fun hm => requester_spared hl _ (hpre.subset hm)
  exact ⟨he.keeps,hpre,fun other _ ho => he.spared other ho,he.emptied,
    fun hb => absurd (blocksHeld_congr (he.spared sequence hn)) hb⟩

/-- A reservation that handed out blocks to the sequence after its evictions. -/
theorem Evicting.granted {w : NativeManager} (he : Evicting l needed u evicted v)
    (hl : LineOf l u sequence) (hkeep : Keeps v w)
    (hother : ∀ other, other≠sequence → w.tables.lookup other=v.tables.lookup other)
    (hgain : w.blocksHeld sequence≠u.blocksHeld sequence → Grantable u sequence tokens) :
    Displaced l sequence tokens u evicted w := by
  have hpre := he.turns.isPrefix
  refine ⟨he.keeps.trans hkeep,hpre,?_,?_,hgain⟩
  · exact fun other hn ho => (hother other hn).trans (he.spared other ho)
  · intro other hm
    have hn : other≠sequence := fun he => requester_spared hl _ (hpre.subset (he ▸ hm))
    rw [blocksHeld_congr (hother other hn)]
    exact he.emptied other hm

/-- A reservation for a known sequence evicts along the line, wherever it
ends. -/
theorem reserve_ends (tokens : ℕ) (h : Single u) (hm : sequence∈u.tables)
    (hl : LineOf l u sequence) :
    Ends (reserve sequence tokens false) u
      (fun outcome v => Displaced l sequence tokens u outcome.preempted v ∧
        (outcome.ok=true → Served l sequence u outcome v))
      (fun v => ∃ evicted, Displaced l sequence tokens u evicted v) := by
  have hidle : Displaced l sequence tokens u [] u :=
    (Evicting.nothing h : Evicting l 0 u [] u).displaced hl
  unfold reserve
  by_cases hz : tokens=0
  · rw [if_pos hz]
    refine ⟨hidle,fun _ => ⟨0,rfl,?_,iff_of_false (by intro hs; cases hs) (fun hn => hn rfl)⟩⟩
    exact .nothing (Nat.zero_le _)
  · rw [if_neg hz]
    obtain ⟨table,hk⟩ := Option.isSome_iff_exists.mp (Finmap.lookup_isSome.mpr hm)
    simp only [ends_bind,ends_modify,ends_get,Bool.false_eq_true,if_false,hk]
    by_cases hn : u.allocator.totalBlocks<u.additionalBlocksFor sequence tokens
    · rw [if_pos hn]
      exact ⟨hidle,(by intros; contradiction)⟩
    · rw [if_neg hn]
      simp only [ends_bind]
      refine (makeRoom_ends h hl).mono ?_ ?_
      · rintro outcome v ⟨he,hok⟩
        by_cases ho : outcome.ok=true
        · rw [if_pos ho]
          obtain ⟨hcov,hres⟩ := hok ho
          have hpre := he.turns.isPrefix
          have hkv := (he.spared sequence
            (fun hs => requester_spared hl _ (hpre.subset hs))).trans hk
          have hown : u.blocksHeld sequence=table.blocks.length := by rw [blocksHeld,hk]
          have hgain : 0<u.additionalBlocksFor sequence tokens → Grantable u sequence tokens :=
            fun hpos => ⟨hz,hpos,Nat.le_of_not_lt hn⟩
          simp only [ends_bind]
          refine (appendBlocks_ends _ table he.keeps.single hkv).mono ?_ ?_
          · rintro grown w ⟨hw,hg,hkeep,hother⟩
            have hwheld : w.blocksHeld sequence=
                u.blocksHeld sequence+u.additionalBlocksFor sequence tokens := by
              rw [blocksHeld,hw,hown]
              exact hg
            cases hf : nativeAddTokens grown tokens with
            | error e =>
              exact ⟨_,he.granted hl hkeep hother (fun hne => hgain (by omega))⟩
            | ok filled =>
              simp only [ends_raising_ok,ends_modify,ends_pure]
              have hrecorded : Keeps w {w with tables := w.tables.insert sequence filled} :=
                ⟨hkeep.single,rfl,rfl,mem_insert_known (known_of_lookup hw)⟩
              have hfinal : ({w with tables := w.tables.insert sequence filled} :
                  NativeManager).blocksHeld sequence=
                    u.blocksHeld sequence+u.additionalBlocksFor sequence tokens := by
                rw [←hwheld,blocksHeld,blocksHeld,hw,Finmap.lookup_insert]
                exact congrArg List.length (addTokens_blocks hf)
              refine ⟨he.granted hl (hkeep.trans hrecorded) ?_ (fun hne => hgain (by omega)),?_⟩
              · intro other ho
                exact (Finmap.lookup_insert_of_ne _ ho).trans (hother other ho)
              · exact fun _ => ⟨_,hfinal,he.turns.shortest hcov,hres⟩
          · rintro w ⟨hpos,hkeep,hother⟩
            exact ⟨_,he.granted hl hkeep hother (fun _ => hgain hpos)⟩
        · rw [if_neg ho]
          exact ⟨he.displaced hl,fun hok => absurd hok ho⟩
      · rintro v ⟨evicted,he⟩
        exact ⟨evicted,he.displaced hl⟩

/-- Registering makes a sequence known at the end of the order, and changes
nothing else. -/
theorem register_orderly (h : Orderly u) (sequence : SequenceId) :
    Orderly (u.register sequence) ∧ sequence∈(u.register sequence).tables := by
  unfold register
  by_cases hm : sequence∈u.tables
  · rw [if_pos hm]
    exact ⟨h,hm⟩
  · rw [if_neg hm]
    refine ⟨⟨h.single,?_,?_⟩,Finmap.mem_insert.mpr (Or.inl rfl)⟩
    · rw [List.nodup_append]
      refine ⟨h.order_nodup,List.nodup_singleton _,?_⟩
      rintro k hk k' hk' rfl
      rw [List.mem_singleton] at hk'
      exact hm (hk' ▸ (h.order_known k).mp hk)
    · intro k
      rw [Finmap.mem_insert,List.mem_append,List.mem_singleton,h.order_known,or_comm]

/-- What a preemption or a release did, wherever it ended. -/
structure LetsGo (sequence : SequenceId) (u v : NativeManager) : Prop where
  orderly : Orderly v
  policy_eq : v.policy=u.policy
  sublist : v.admissionOrder.Sublist u.admissionOrder
  spared : ∀ other, other≠sequence → v.tables.lookup other=u.tables.lookup other
  own : v.blocksHeld sequence=u.blocksHeld sequence ∨ v.blocksHeld sequence=0

/-- Nothing was let go. -/
theorem LetsGo.nothing (h : Orderly u) : LetsGo sequence u u :=
  ⟨h,rfl,.refl _,fun _ _ => rfl,Or.inl rfl⟩

/-- A preemption on request. -/
theorem preempt_ends (h : Orderly u) (sequence : SequenceId) :
    Ends (preempt sequence) u (fun _ v => LetsGo sequence u v) (fun v => LetsGo sequence u v) := by
  simp only [preempt,ends_bind,ends_get]
  cases hk : u.tables.lookup sequence with
  | none => exact .nothing h
  | some table =>
    dsimp only
    by_cases hb : table.blocks.length=0
    · rw [if_pos hb]
      exact .nothing h
    · rw [if_neg hb]
      simp only [ends_bind,ends_pure]
      refine (reclaim_ends h.single hk).mono ?_ ?_
      · rintro _ v ⟨hkeep,_,ht⟩
        refine ⟨hkeep.orderly h,hkeep.policy_eq,hkeep.order_eq ▸ .refl _,?_,Or.inr ?_⟩
        · exact fun other hn => ht ▸ Finmap.lookup_insert_of_ne _ hn
        · rw [emptied_books ht,emptiedAt,Function.update_self]
      · rintro v ⟨hkeep,ht⟩
        refine ⟨hkeep.orderly h,hkeep.policy_eq,hkeep.order_eq ▸ .refl _,?_,Or.inl ?_⟩
        · exact fun other _ => by rw [ht]
        · exact blocksHeld_congr (by rw [ht])

/-- A release. -/
theorem release_ends (h : Orderly u) (sequence : SequenceId) :
    Ends (release sequence) u (fun _ v => LetsGo sequence u v) (fun v => LetsGo sequence u v) := by
  simp only [release,ends_bind,ends_get]
  cases hk : u.tables.lookup sequence with
  | none => exact .nothing h
  | some table =>
    simp only [ends_bind]
    refine (releaseBlocks_ends table.blocks h.single).mono ?_ ?_
    · rintro _ v ⟨hs,hv,_⟩
      simp only [ends_modify]
      rw [hv] at hs ⊢
      refine ⟨⟨hs,h.order_nodup.filter _,?_⟩,rfl,List.filter_sublist,?_,Or.inr ?_⟩
      · intro k
        rw [List.mem_filter,decide_eq_true_iff,h.order_known,Finmap.mem_erase,and_comm]
      · exact fun other hn => Finmap.lookup_erase_ne hn
      · rw [blocksHeld,Finmap.lookup_erase]
    · rintro v ⟨hs,hv⟩
      rw [hv] at hs ⊢
      exact ⟨⟨hs,h.order_nodup,h.order_known⟩,rfl,.refl _,fun _ _ => rfl,Or.inl rfl⟩

end CudaForge.NativeEvictions
