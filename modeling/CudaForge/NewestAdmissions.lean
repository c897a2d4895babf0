import CudaForge.ShortestEvictions

/-!
# Does newest-first evict the newest admission

The latest admission that took a sequence from no blocks to some dates it.
Newest-first goes by the recorded order, in which a sequence keeps the place
it took when it became known. The two agree as long as every call that gives
blocks to a known sequence holding none finds it in its place. A preempted
sequence admitted again keeps its old place, and an older one behind it is
evicted in its stead.
-/

namespace CudaForge.NewestAdmissions

open ExceptionState CacheBlocks CacheManager CacheInvariant CacheReservation CacheNative
open CachePlacement NativeRuns RefusedReservations ReservationFeasibility EvictionOrder
open VictimOrder NativeEvictions ShortestEvictions TransitionRuns

variable {σ : Type} {total blockSize now : ℕ} {policy : PreemptionPolicy}
variable {sequence other : SequenceId} {time time' : SequenceId → Option ℕ}
variable {creating : Bool} {grantable : Prop} {before left : Standing}
variable {evicted : List SequenceId}

/-- A manager with the dates of its admissions. -/
structure History (σ : Type) where
  /-- The manager. -/
  manager : σ
  /-- Calls made so far. -/
  now : ℕ
  /-- The latest admission of each sequence that took it from holding no
  blocks to holding some. -/
  admittedAt : SequenceId → Option ℕ

/-- The dates after a call. -/
def dated (before left : Standing) (now : ℕ) (time : SequenceId → Option ℕ) :
    CacheCall → SequenceId → Option ℕ
  | .admitSequence sequence _ =>
    if blocksOf before sequence=0 ∧ 0<blocksOf left sequence then
      Function.update time sequence (some now)
    else time
  | .extend _ _ => time
  | .preempt _ => time
  | .release _ => time

/-- The runs of a manager with their dates. -/
def historyMachine (m : Machine σ CacheCall) (observe : σ → Standing) :
    Machine (History σ) CacheCall where
  starts h := m.starts h.manager ∧ h.now=0 ∧ h.admittedAt=fun _ => none
  steps h call k := m.steps h.manager call k.manager ∧ k.now=h.now+1 ∧
    k.admittedAt=dated (observe h.manager) (observe k.manager) h.now h.admittedAt call

/-- One sequence was last admitted later than another. -/
def Later (time : SequenceId → Option ℕ) (a b : SequenceId) : Prop :=
  ∃ ta tb, time a=some ta ∧ time b=some tb ∧ tb<ta

/-- The evictions of a request, which are those it lists where it answers:
when a victim is evicted, no other sequence that still holds blocks was last
admitted later. -/
def EvictsNewest (before : Standing) (time : SequenceId → Option ℕ) (requester : SequenceId)
    (reply : Option CacheReply) (left : Standing) : Prop :=
  ∃ evicted, (∀ outcome, reply=some (.outcome outcome) → evicted=outcome.preempted) ∧
    (∀ other, other≠requester → other∉evicted → left.held other=before.held other) ∧
    ∀ earlier victim rest, evicted=earlier++victim::rest → ∀ other, other≠requester →
      other∉earlier → other≠victim → 0<blocksOf before other → ¬Later time other victim

/-- One sequence stands before another in an admission order. -/
def Before (order : List SequenceId) (a b : SequenceId) : Prop := [a,b].Sublist order

/-- A sequence stands among the holders of blocks where its admission belongs. -/
def InPlace (standing : Standing) (time : SequenceId → Option ℕ) (sequence : SequenceId) : Prop :=
  ∀ other, 0<blocksOf standing other →
    (Before standing.admissionOrder other sequence → ¬Later time other sequence) ∧
    (Before standing.admissionOrder sequence other → ¬Later time sequence other)

/-- A call that may give blocks to a known sequence holding none finds it in
its place; an admission would be its latest. -/
def FindsPlace (standing : Standing) (now : ℕ) (time : SequenceId → Option ℕ)
    (grantable : SequenceId → ℕ → Prop) : CacheCall → Prop
  | .admitSequence sequence tokens => blocksOf standing sequence=0 → grantable sequence tokens →
      InPlace standing (Function.update time sequence (some now)) sequence
  | .extend sequence tokens => blocksOf standing sequence=0 → grantable sequence tokens →
      InPlace standing time sequence
  | .preempt _ => True
  | .release _ => True

/-- The holders of blocks stand in the order of their admissions. -/
def Seated (standing : Standing) (time : SequenceId → Option ℕ) : Prop :=
  ∀ a b, Before standing.admissionOrder a b → 0<blocksOf standing a → 0<blocksOf standing b →
    ¬Later time a b

/-- No sequence was admitted later than itself. -/
theorem later_irrefl (time : SequenceId → Option ℕ) (a : SequenceId) : ¬Later time a a := by
  rintro ⟨ta,tb,ha,hb,hlt⟩
  rw [ha,Option.some.injEq] at hb
  omega

/-- Only the two dates matter. -/
theorem later_congr {a b : SequenceId} (ha : time' a=time a) (hb : time' b=time b) :
    Later time' a b ↔ Later time a b := by
  rw [Later,Later,ha,hb]

/-- Whoever stands before or behind another is in the order. -/
theorem Before.mem {order : List SequenceId} {a b : SequenceId} (h : Before order a b) :
    a∈order ∧ b∈order :=
  ⟨h.subset List.mem_cons_self,h.subset (List.mem_cons_of_mem _ List.mem_cons_self)⟩

/-- A newcomer stands before nobody. -/
theorem before_append {order : List SequenceId} {a b : SequenceId}
    (h : Before (order++[sequence]) a b) : Before order a b ∨ b=sequence := by
  obtain ⟨front,back,he,hf,hb⟩ := List.sublist_append_iff.mp h
  rcases List.sublist_singleton.mp hb with rfl | rfl
  · rw [List.append_nil] at he
    rw [←he] at hf
    exact Or.inl hf
  · have hl := congrArg List.getLast? he
    rw [List.getLast?_append,List.getLast?_singleton,List.getLast?_cons_cons,
      List.getLast?_singleton,Option.some_or,Option.some.injEq] at hl
    exact Or.inr hl

/-- An unknown sequence is in place. -/
theorem inPlace_unknown (hn : sequence∉before.admissionOrder) : InPlace before time sequence :=
  fun _ _ => ⟨fun hb => absurd hb.mem.2 hn,fun hb => absurd hb.mem.1 hn⟩

/-- What keeps the holders seated: nobody but the sequence of a call gains
blocks or a date, it held them at its date or is in place, and whoever comes
to stand behind others was not admitted before them. -/
theorem Seated.step (hs : Seated before time) (htime : ∀ k, k≠sequence → time' k=time k)
    (hblocks : ∀ k, k≠sequence → 0<blocksOf left k → 0<blocksOf before k)
    (horder : ∀ a b, Before left.admissionOrder a b → 0<blocksOf left b →
      Before before.admissionOrder a b ∨ (b=sequence ∧ ¬Later time' a b))
    (hown : sequence∈before.admissionOrder → 0<blocksOf left sequence →
      (0<blocksOf before sequence ∧ time' sequence=time sequence) ∨
        InPlace before time' sequence) : Seated left time' := by
  intro a b hab ha hb
  rcases horder a b hab hb with hab | ⟨_,hl⟩
  · by_cases hae : a=sequence
    · by_cases hbe : b=sequence
      · rw [hae,hbe]
        exact later_irrefl time' sequence
      · subst hae
        rcases hown hab.mem.1 ha with ⟨hheld,ht⟩ | hplace
        · rw [later_congr ht (htime b hbe)]
          exact hs a b hab hheld (hblocks b hbe hb)
        · exact (hplace b (hblocks b hbe hb)).2 hab
    · by_cases hbe : b=sequence
      · subst hbe
        rcases hown hab.mem.2 hb with ⟨hheld,ht⟩ | hplace
        · rw [later_congr (htime a hae) ht]
          exact hs a b hab (hblocks a hae ha) hheld
        · exact (hplace a (hblocks a hae ha)).1 hab
      · rw [later_congr (htime a hae) (htime b hbe)]
        exact hs a b hab (hblocks a hae ha) (hblocks b hbe hb)
  · exact hl

/-- Every date is in the past. -/
def Past (time : SequenceId → Option ℕ) (now : ℕ) : Prop := ∀ k t, time k=some t → t<now

/-- Whoever holds blocks is known. -/
def Known (standing : Standing) : Prop :=
  ∀ k, 0<blocksOf standing k → k∈standing.admissionOrder

/-- Nobody was admitted later than now. -/
theorem not_later_now (hp : Past time now) {k : SequenceId} (hk : k≠sequence) :
    ¬Later (Function.update time sequence (some now)) k sequence := by
  rintro ⟨ta,tb,ha,hb,hlt⟩
  rw [Function.update_of_ne hk] at ha
  rw [Function.update_self,Option.some.injEq] at hb
  have hpast := hp k ta ha
  omega

/-- A reservation gives no blocks to anybody else. -/
theorem reserved_blocks (hr : Reserved policy creating grantable sequence before left evicted)
    (k : SequenceId) (hk : k≠sequence) (hb : 0<blocksOf left k) : 0<blocksOf before k := by
  by_cases hm : k∈evicted
  · rw [hr.emptied k hm] at hb
    exact absurd hb (Nat.lt_irrefl 0)
  · rwa [←blocksOf_congr (hr.spared k hk hm)]

/-- An admission keeps the holders seated. -/
theorem seated_admitted (hs : Seated before time) (hp : Past time now) (hk : Known before)
    {tokens : ℕ} (hr : Reserved policy true grantable sequence before left evicted)
    (hplace : blocksOf before sequence=0 → grantable →
      InPlace before (Function.update time sequence (some now)) sequence) :
    Seated left (dated before left now time (.admitSequence sequence tokens)) := by
  rw [dated]
  by_cases hst : blocksOf before sequence=0 ∧ 0<blocksOf left sequence
  · rw [if_pos hst]
    refine hs.step (fun k hk => Function.update_of_ne hk _ _) (reserved_blocks hr) ?_ ?_
    · intro a b hab _
      rcases hr.order with ho | ⟨_,hn,ho⟩
      · exact Or.inl (ho ▸ hab)
      · rw [ho] at hab
        refine (before_append hab).imp id (fun he => ⟨he,?_⟩)
        subst he
        by_cases hae : a=b
        · rw [hae]
          exact later_irrefl _ b
        · exact not_later_now hp hae
    · intro hm hb
      exact Or.inr (hplace hst.1 (hr.gains (by omega) hm))
  · rw [if_neg hst]
    have hheld : 0<blocksOf left sequence → 0<blocksOf before sequence := by
      intro hb
      by_contra hz
      exact hst ⟨by omega,hb⟩
    refine hs.step (fun _ _ => rfl) (reserved_blocks hr) ?_
      (fun _ hb => Or.inl ⟨hheld hb,rfl⟩)
    intro a b hab hb
    rcases hr.order with ho | ⟨_,hn,ho⟩
    · exact Or.inl (ho ▸ hab)
    · rw [ho] at hab
      rcases before_append hab with hab | rfl
      · exact Or.inl hab
      · exact absurd (hk b (hheld hb)) hn

/-- So does an extension. -/
theorem seated_extended (hs : Seated before time)
    (hr : Reserved policy false grantable sequence before left evicted)
    (hplace : blocksOf before sequence=0 → grantable → InPlace before time sequence) :
    Seated left time := by
  have ho : left.admissionOrder=before.admissionOrder :=
    hr.order.resolve_right (fun hc => absurd hc.1 (by decide))
  refine hs.step (fun _ _ => rfl) (reserved_blocks hr) (fun a b hab _ => Or.inl (ho ▸ hab)) ?_
  intro hm hb
  by_cases hz : blocksOf before sequence=0
  · exact Or.inr (hplace hz (hr.gains (by omega) hm))
  · exact Or.inl ⟨by omega,rfl⟩

/-- A preemption or a release, observed. -/
structure LetGo (sequence : SequenceId) (before left : Standing) : Prop where
  /-- At most somebody left the order. -/
  sublist : left.admissionOrder.Sublist before.admissionOrder
  /-- The others keep what they hold. -/
  spared : ∀ other, other≠sequence → left.held other=before.held other
  /-- The sequence keeps its blocks or loses them all. -/
  own : blocksOf left sequence=blocksOf before sequence ∨ blocksOf left sequence=0

/-- Letting go keeps the holders seated. -/
theorem seated_letGo (hs : Seated before time) (hl : LetGo sequence before left) :
    Seated left time := by
  have hblocks : ∀ k, k≠sequence → 0<blocksOf left k → 0<blocksOf before k := by
    intro k hk hb
    rwa [←blocksOf_congr (hl.spared k hk)]
  refine hs.step (fun _ _ => rfl) hblocks (fun a b hab _ => Or.inl (hab.trans hl.sublist)) ?_
  intro _ hb
  rcases hl.own with ho | ho
  · exact Or.inl ⟨ho ▸ hb,rfl⟩
  · omega

/-- While the holders are seated, a prefix of the newest-first line evicts
the newest. -/
theorem seated_newest (hs : Seated before time) (hk : Known before)
    (ha : evicted <+: victims .newest before sequence) :
    ∀ earlier victim rest, evicted=earlier++victim::rest → ∀ other, other≠sequence →
      other∉earlier → other≠victim → 0<blocksOf before other → ¬Later time other victim := by
  rintro earlier victim rest rfl other hne hearly hv hb
  obtain ⟨waiting,hline⟩ := ha
  rw [List.append_assoc,List.cons_append] at hline
  have hm : other∈victims .newest before sequence :=
    mem_victimOrder.mpr ⟨mem_others.mpr ⟨hk other hb,hne⟩,hb⟩
  have hvm : victim∈victims .newest before sequence := by
    rw [←hline]
    exact List.mem_append_right _ List.mem_cons_self
  have hbehind : other∈rest++waiting := by
    rw [←hline] at hm
    rcases List.mem_append.mp hm with hm | hm
    · exact absurd hm hearly
    · exact (List.mem_cons.mp hm).resolve_left hv
  have horder : Before before.admissionOrder other victim :=
    (newestFirst_behind hline.symm hbehind).trans List.filter_sublist
  exact hs other victim horder hb (mem_victimOrder.mp hvm).2

/-- What a call does to a manager, observed. -/
def Moves (policy : PreemptionPolicy) (grantable : SequenceId → ℕ → Prop)
    (before left : Standing) : CacheCall → Prop
  | .admitSequence sequence tokens => ∃ evicted,
      Reserved policy true (grantable sequence tokens) sequence before left evicted
  | .extend sequence tokens => ∃ evicted,
      Reserved policy false (grantable sequence tokens) sequence before left evicted
  | .preempt sequence => LetGo sequence before left
  | .release sequence => LetGo sequence before left

/-- Every call that finds its place keeps the holders seated. -/
theorem seated_moves (hs : Seated before time) (hp : Past time now) (hk : Known before)
    {grants : SequenceId → ℕ → Prop} {call : CacheCall}
    (hplace : FindsPlace before now time grants call) (hm : Moves policy grants before left call) :
    Seated left (dated before left now time call) := by
  cases call with
  | admitSequence sequence tokens =>
    obtain ⟨evicted,hr⟩ := hm
    exact seated_admitted hs hp hk hr hplace
  | extend sequence tokens =>
    obtain ⟨evicted,hr⟩ := hm
    exact seated_extended hs hr hplace
  | preempt sequence => exact seated_letGo hs hm
  | release sequence => exact seated_letGo hs hm

/-- Dates stay in the past. -/
theorem past_dated (hp : Past time now) (call : CacheCall) :
    Past (dated before left now time call) (now+1) := by
  have hkeep : Past time (now+1) := fun k t ht => Nat.lt_succ_of_lt (hp k t ht)
  cases call with
  | admitSequence sequence tokens =>
    rw [dated]
    split
    · intro k t ht
      by_cases he : k=sequence
      · rw [he,Function.update_self,Option.some.injEq] at ht
        omega
      · rw [Function.update_of_ne he] at ht
        exact hkeep k t ht
    · exact hkeep
  | extend sequence tokens => exact hkeep
  | preempt sequence => exact hkeep
  | release sequence => exact hkeep

/-- The next call of a dated manager finds its place. -/
def Placed (observe : σ → Standing) (grants : σ → SequenceId → ℕ → Prop) (h : History σ)
    (call : CacheCall) : Prop :=
  FindsPlace (observe h.manager) h.now h.admittedAt (grants h.manager) call

/-- In a run whose calls find their places the holders stay seated. -/
theorem reaches_seated {m : Machine σ CacheCall} {observe : σ → Standing}
    {grants : σ → SequenceId → ℕ → Prop}
    (hstart : ∀ s, m.starts s → (observe s).admissionOrder=[])
    (hknown : ∀ s, m.Reaches s → Known (observe s))
    (hmoves : ∀ s call t, m.Reaches s → m.steps s call t →
      Moves policy (grants s) (observe s) (observe t) call)
    {h : History σ}
    (hr : ((historyMachine m observe).guarded (Placed observe grants)).Reaches h) :
    m.Reaches h.manager ∧ Past h.admittedAt h.now ∧ Seated (observe h.manager) h.admittedAt := by
  refine hr.invariant (P := fun h =>
    m.Reaches h.manager ∧ Past h.admittedAt h.now ∧ Seated (observe h.manager) h.admittedAt) ?_ ?_
  · rintro h ⟨hm,_,ht⟩
    refine ⟨.start hm,?_,?_⟩
    · intro k t hk
      rw [ht] at hk
      exact absurd hk (by simp only [reduceCtorEq,not_false_eq_true])
    · intro a b hab
      rw [hstart _ hm] at hab
      exact absurd hab.mem.1 List.not_mem_nil
  · rintro h call k ⟨hm,hp,hs⟩ ⟨hplace,hstep,hnow,htime⟩
    rw [hnow,htime]
    exact ⟨.step hm hstep,past_dated hp call,
      seated_moves hs hp (hknown _ hm) hplace (hmoves _ call _ hm hstep)⟩

variable {s t : KVCacheManager} {u v : NativeManager}

/-- Whoever holds blocks of the Python manager is known to it. -/
theorem py_known (h : PoolInvariant total blockSize policy s) : Known (standing s) := by
  intro k hb
  rw [blocksOf_standing,KVCacheManager.blocksHeld] at hb
  cases hk : s.tables.lookup k with
  | none =>
    rw [hk] at hb
    exact absurd hb (Nat.lt_irrefl 0)
  | some table => exact (h.mem_order k).mpr (AList.lookup_isSome.mp (by rw [hk]; rfl))

/-- What every call does to the Python manager. -/
theorem py_moves (h : PoolInvariant total blockSize policy s) (call : CacheCall) :
    Moves policy (PyGrantable s) (standing s) (standing (answered (call.run s)).2) call := by
  cases call with
  | admitSequence sequence tokens =>
    obtain ⟨evicted,hr,_⟩ := py_reservation h true sequence tokens
    exact ⟨evicted,hr⟩
  | extend sequence tokens =>
    obtain ⟨evicted,hr,_⟩ := py_reservation h false sequence tokens
    exact ⟨evicted,hr⟩
  | preempt sequence =>
    rcases call_cases h (.preempt sequence) with hm | ⟨_,_,he,_⟩
    · obtain ⟨reply,t,hx,he,_⟩ := hm.returns
      rw [hx]
      cases he with
      | preemptedNothing _ => exact ⟨.refl _,fun _ _ => rfl,Or.inl rfl⟩
      | preempted hk _ =>
        refine ⟨.refl _,fun other hn => ?_,Or.inr ?_⟩
        · simp only [answered,standing,emptied_lookup_ne hn]
        · simp only [answered,blocksOf_standing,blocksHeld_of_lookup emptied_lookup_self]
          rfl
    · exact absurd he (by simp only [reduceCtorEq,not_false_eq_true])
  | release sequence =>
    rcases call_cases h (.release sequence) with hm | ⟨_,_,he,_⟩
    · obtain ⟨reply,t,hx,he,_⟩ := hm.returns
      rw [hx]
      cases he with
      | releasedNothing _ => exact ⟨.refl _,fun _ _ => rfl,Or.inl rfl⟩
      | released hk =>
        refine ⟨List.filter_sublist,fun other hn => ?_,Or.inr ?_⟩
        · simp only [answered,standing,forgotten,AList.lookup_erase_ne hn]
        · simp only [answered,blocksOf_standing,KVCacheManager.blocksHeld,forgotten,
            AList.lookup_erase]
    · exact absurd he (by simp only [reduceCtorEq,not_false_eq_true])

/-- Whoever holds blocks of the native manager is known to it. -/
theorem native_known (h : Orderly u) : Known (nativeStanding u) := by
  intro k hb
  rw [blocksOf_native,NativeManager.blocksHeld] at hb
  cases hk : u.tables.lookup k with
  | none =>
    rw [hk] at hb
    exact absurd hb (Nat.lt_irrefl 0)
  | some table => exact (h.order_known k).mpr (NativeEvictions.known_of_lookup hk)

/-- Letting go, observed. -/
theorem letsGo_letGo (hl : LetsGo sequence u v) :
    LetGo sequence (nativeStanding u) (nativeStanding v) := by
  refine ⟨hl.sublist,fun other hn => ?_,?_⟩
  · simp only [nativeStanding,hl.spared other hn]
  · rw [blocksOf_native,blocksOf_native]
    exact hl.own

/-- What every call does to the native manager. -/
theorem native_moves (h : Orderly u) (hp : u.policy=policy) (call : CacheCall) :
    Moves policy (Grantable u) (nativeStanding u) (nativeStanding (nativeAfter call u)) call := by
  cases call with
  | admitSequence sequence tokens =>
    obtain ⟨⟨evicted,hr,_⟩,_⟩ := native_reservation h hp true sequence tokens
    exact ⟨evicted,hr⟩
  | extend sequence tokens =>
    obtain ⟨⟨evicted,hr,_⟩,_⟩ := native_reservation h hp false sequence tokens
    exact ⟨evicted,hr⟩
  | preempt sequence => exact letsGo_letGo (native_letsGo h sequence).1
  | release sequence => exact letsGo_letGo (native_letsGo h sequence).2

/-- While the holders are seated, a reservation evicts the newest. -/
theorem seated_evictsNewest (hs : Seated before time) (hk : Known before)
    {reply : Option CacheReply}
    (hr : ReservedSo .newest creating grantable sequence before reply left) :
    EvictsNewest before time sequence reply left := by
  obtain ⟨evicted,hd,ho⟩ := hr
  exact ⟨evicted,fun outcome he => (ho outcome he).1,hd.spared,seated_newest hs hk hd.along⟩

/-- The state a call leaves, whichever way it is written. -/
theorem answered_after (call : CacheCall) (s : KVCacheManager) :
    (answered (call.run s)).2=after call s := by
  rw [after]
  cases call.run s <;> rfl

/-- In a run of the Python manager whose calls find their places the holders
stay seated. -/
theorem py_seated {h : History KVCacheManager}
    (hr : ((historyMachine (cacheMachine total blockSize policy) standing).guarded
      (Placed standing PyGrantable)).Reaches h) :
    PoolInvariant total blockSize policy h.manager ∧ Seated (standing h.manager) h.admittedAt := by
  have hstart : ∀ s, (cacheMachine total blockSize policy).starts s →
      (standing s).admissionOrder=[] := by
    intro s hc
    change KVCacheManager.create total blockSize policy=.ok s at hc
    unfold KVCacheManager.create at hc
    split at hc
    · exact absurd hc (by simp only [reduceCtorEq,not_false_eq_true])
    · rw [Except.ok.injEq] at hc
      rw [←hc]
      rfl
  have hmoves : ∀ s call t, (cacheMachine total blockSize policy).Reaches s →
      (cacheMachine total blockSize policy).steps s call t →
        Moves policy (PyGrantable s) (standing s) (standing t) call := by
    rintro s call t hs rfl
    rw [←answered_after]
    exact py_moves (reaches_invariant hs) call
  obtain ⟨hm,_,hs⟩ := reaches_seated hstart (fun s hs => py_known (reaches_invariant hs)) hmoves hr
  exact ⟨reaches_invariant hm,hs⟩

/-- So they do in a run of the native one. -/
theorem native_seated {h : History NativeManager}
    (hr : ((historyMachine (nativeMachine total blockSize policy) nativeStanding).guarded
      (Placed nativeStanding Grantable)).Reaches h) :
    (Orderly h.manager ∧ h.manager.policy=policy) ∧
      Seated (nativeStanding h.manager) h.admittedAt := by
  have hstart : ∀ u, (nativeMachine total blockSize policy).starts u →
      (nativeStanding u).admissionOrder=[] := by
    intro u hc
    change NativeManager.create total blockSize policy=.ok u at hc
    unfold NativeManager.create at hc
    split at hc
    · exact absurd hc (by simp only [reduceCtorEq,not_false_eq_true])
    · rw [Except.ok.injEq] at hc
      rw [←hc]
      rfl
  have hmoves : ∀ u call v, (nativeMachine total blockSize policy).Reaches u →
      (nativeMachine total blockSize policy).steps u call v →
        Moves policy (Grantable u) (nativeStanding u) (nativeStanding v) call := by
    rintro u call v hu ⟨_,rfl⟩
    obtain ⟨ho,hp⟩ := reaches_orderly hu
    exact native_moves ho hp call
  obtain ⟨hm,_,hs⟩ := reaches_seated hstart
    (fun u hu => native_known (reaches_orderly hu).1) hmoves hr
  exact ⟨reaches_orderly hm,hs⟩

/-- In every run of either manager, over any pool, whose calls find their
places, newest-first evicts the newest admission. -/
theorem placed_evicts_newest (total blockSize : ℕ) :
    (∀ h, ((historyMachine (cacheMachine total blockSize .newest) standing).guarded
        (Placed standing PyGrantable)).Reaches h → ∀ creating sequence tokens,
      EvictsNewest (standing h.manager) h.admittedAt sequence
        (answered ((reservation creating sequence tokens).run h.manager)).1
        (standing (answered ((reservation creating sequence tokens).run h.manager)).2)) ∧
    (∀ h, ((historyMachine (nativeMachine total blockSize .newest) nativeStanding).guarded
        (Placed nativeStanding Grantable)).Reaches h → ∀ creating sequence tokens, tokens<2^64 →
      EvictsNewest (nativeStanding h.manager) h.admittedAt sequence
        (answered (runNative (reservation creating sequence tokens) h.manager)).1
        (nativeStanding
          (answered (runNative (reservation creating sequence tokens) h.manager)).2)) := by
  constructor
  · intro h hr creating sequence tokens
    obtain ⟨hi,hs⟩ := py_seated hr
    exact seated_evictsNewest hs (py_known hi) (py_reservation hi creating sequence tokens)
  · intro h hr creating sequence tokens _
    obtain ⟨⟨ho,hp⟩,hs⟩ := native_seated hr
    exact seated_evictsNewest hs (native_known ho) (native_reservation ho hp creating sequence
      tokens).1

/-- One more call in a dated run. -/
def advance (observe : σ → Standing) (move : CacheCall → σ → σ) (h : History σ)
    (call : CacheCall) : History σ where
  manager := move call h.manager
  now := h.now+1
  admittedAt := dated (observe h.manager) (observe (move call h.manager)) h.now h.admittedAt call

/-- It is a step. -/
theorem advance_steps {m : Machine σ CacheCall} {observe : σ → Standing}
    {move : CacheCall → σ → σ} {h : History σ} {call : CacheCall}
    (ht : m.steps h.manager call (move call h.manager)) :
    (historyMachine m observe).steps h call (advance observe move h call) := ⟨ht,rfl,rfl⟩

/-- An admission of an unknown sequence goes on with a run whose calls find
their places. -/
theorem newcomer_reaches {m : Machine σ CacheCall} {observe : σ → Standing}
    {grants : σ → SequenceId → ℕ → Prop} {move : CacheCall → σ → σ} {h : History σ} {tokens : ℕ}
    (hr : ((historyMachine m observe).guarded (Placed observe grants)).Reaches h)
    (hn : sequence∉(observe h.manager).admissionOrder)
    (ht : m.steps h.manager (.admitSequence sequence tokens)
      (move (.admitSequence sequence tokens) h.manager)) :
    ((historyMachine m observe).guarded (Placed observe grants)).Reaches
      (advance observe move h (.admitSequence sequence tokens)) := by
  have hp : Placed observe grants h (.admitSequence sequence tokens) :=
    fun _ _ => inPlace_unknown hn
  exact .step hr ⟨hp,advance_steps ht⟩

/-- The new Python manager of two blocks of one token, dated. -/
def smallPy : History KVCacheManager :=
  ⟨⟨exclusivePool 2 1 [0,1],1,.newest,∅,[],0,0⟩,0,fun _ => none⟩

/-- The new native one. -/
def smallNative : History NativeManager :=
  ⟨⟨⟨2,1,[0,1],[0,0]⟩,1,.newest,∅,[],0,0⟩,0,fun _ => none⟩

/-- Either after two admissions, which leave no block free. -/
def admittedTwice (observe : σ → Standing) (move : CacheCall → σ → σ) (h : History σ) :
    History σ :=
  advance observe move (advance observe move h (.admitSequence 1 1)) (.admitSequence 2 1)

/-- And after the first sequence was preempted and admitted again. -/
def readmitted (observe : σ → Standing) (move : CacheCall → σ → σ) (h : History σ) :
    History σ :=
  advance observe move (advance observe move (admittedTwice observe move h) (.preempt 1))
    (.admitSequence 1 1)

/-- One token is a `size_t`. -/
theorem oneToken_word : WordCall (.admitSequence sequence 1) := by
  simp only [WordCall]
  decide

/-- After the two admissions the second is evicted for a third, in either. -/
theorem second_evicted :
    EvictsNewest (standing (admittedTwice standing after smallPy).manager)
      (admittedTwice standing after smallPy).admittedAt 3 (some (.outcome ⟨.preemptedOthers,[2]⟩))
      (standing (after (.admitSequence 3 1) (admittedTwice standing after smallPy).manager)) ∧
    EvictsNewest (nativeStanding (admittedTwice nativeStanding nativeAfter smallNative).manager)
      (admittedTwice nativeStanding nativeAfter smallNative).admittedAt 3
      (some (.outcome ⟨.preemptedOthers,[2]⟩))
      (nativeStanding (nativeAfter (.admitSequence 3 1)
        (admittedTwice nativeStanding nativeAfter smallNative).manager)) := by
  have hc := placed_evicts_newest 2 1
  have hpy : ((historyMachine (cacheMachine 2 1 .newest) standing).guarded
      (Placed standing PyGrantable)).Reaches (admittedTwice standing after smallPy) :=
    newcomer_reaches (newcomer_reaches (.start ⟨rfl,rfl,rfl⟩) (by decide +kernel) rfl)
      (by decide +kernel) rfl
  have hnative : ((historyMachine (nativeMachine 2 1 .newest) nativeStanding).guarded
      (Placed nativeStanding Grantable)).Reaches
        (admittedTwice nativeStanding nativeAfter smallNative) :=
    newcomer_reaches (newcomer_reaches (.start ⟨rfl,rfl,rfl⟩) (by decide +kernel) ⟨oneToken_word,rfl⟩)
      (by decide +kernel) ⟨oneToken_word,rfl⟩
  exact ⟨hc.1 _ hpy true 3 1,hc.2 _ hnative true 3 1 (by decide)⟩

/-- After the readmission the second is still the one that is evicted, though
the first was admitted later, in either. -/
theorem readmission_ignored :
    (historyMachine (cacheMachine 2 1 .newest) standing).Reaches
      (readmitted standing after smallPy) ∧
    ¬EvictsNewest (standing (readmitted standing after smallPy).manager)
      (readmitted standing after smallPy).admittedAt 3
      (answered ((reservation true 3 1).run (readmitted standing after smallPy).manager)).1
      (standing
        (answered ((reservation true 3 1).run (readmitted standing after smallPy).manager)).2) ∧
    (historyMachine (nativeMachine 2 1 .newest) nativeStanding).Reaches
      (readmitted nativeStanding nativeAfter smallNative) ∧
    ¬EvictsNewest (nativeStanding (readmitted nativeStanding nativeAfter smallNative).manager)
      (readmitted nativeStanding nativeAfter smallNative).admittedAt 3
      (answered (runNative (reservation true 3 1)
        (readmitted nativeStanding nativeAfter smallNative).manager)).1
      (nativeStanding (answered (runNative (reservation true 3 1)
        (readmitted nativeStanding nativeAfter smallNative).manager)).2) := by
  refine ⟨?_,?_,?_,?_⟩
  · exact .step (.step (.step (.step (.start (s:=smallPy) ⟨rfl,rfl,rfl⟩) (advance_steps rfl))
      (advance_steps rfl)) (advance_steps rfl)) (advance_steps rfl)
  · rintro ⟨evicted,hanswer,_,hnewest⟩
    have he := hanswer ⟨.preemptedOthers,[2]⟩ (by decide +kernel)
    exact hnewest [] 2 [] he 1 (by decide) List.not_mem_nil (by decide) (by decide +kernel)
      ⟨3,1,by decide +kernel,by decide +kernel,by decide⟩
  · exact .step (.step (.step (.step (.start (s:=smallNative) ⟨rfl,rfl,rfl⟩)
      (advance_steps ⟨oneToken_word,rfl⟩)) (advance_steps ⟨oneToken_word,rfl⟩))
      (advance_steps ⟨show WordCall (.preempt 1) from trivial,rfl⟩))
      (advance_steps ⟨oneToken_word,rfl⟩)
  · rintro ⟨evicted,hanswer,_,hnewest⟩
    have he := hanswer ⟨.preemptedOthers,[2]⟩ (by decide +kernel)
    exact hnewest [] 2 [] he 1 (by decide) List.not_mem_nil (by decide) (by decide +kernel)
      ⟨3,1,by decide +kernel,by decide +kernel,by decide⟩

end CudaForge.NewestAdmissions
