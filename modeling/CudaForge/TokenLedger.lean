import CudaForge.NewestAdmissions

/-!
# Where the tokens of the cache went

A ledger beside a manager books the tokens of every granted reservation, the
tokens a released sequence still held, the sequences that replies list as
preempted and the preemptions on request. What was granted is held, was lost
to preemption or was released, and every preemption was listed or asked for.
The Python manager keeps these accounts in every run. The native one keeps
them exactly as long as no machine word wraps and no reservation raises after
it has evicted somebody.
-/

namespace CudaForge.TokenLedger

open ExceptionState CacheBlocks CacheManager CacheInvariant CacheReservation CachePlacement
open CacheNative CacheConformance CacheBooks NativeRuns RefusedReservations
open ReservationFeasibility EvictionOrder VictimOrder ShortestEvictions NewestAdmissions
open TransitionRuns

variable {σ : Type} {total blockSize tokens needed : ℕ} {policy : PreemptionPolicy}
variable {s t : KVCacheManager} {sequence : SequenceId} {table : SequenceBlockTable}

/-- What a manager reports of its tokens. -/
structure Account where
  /-- Tokens that all tables hold together. -/
  held : ℕ
  /-- Tokens lost to preemption. -/
  recomputed : ℕ
  /-- Preemptions. -/
  preemptions : ℕ

/-- Tokens that all native tables hold together. -/
def nativeHeldTokens (tables : NativeTables) : ℕ :=
  tables.foldl (fun held _ table => held+table.tokens)
    (fun held _ table _ table' => Nat.add_right_comm held table.tokens table'.tokens) 0

/-- The account of the Python manager. -/
def account (s : KVCacheManager) : Account where
  held := heldTokens s.tables
  recomputed := s.recomputedTokens
  preemptions := s.preemptions

/-- The account of the native manager. -/
def nativeAccount (u : NativeManager) : Account where
  held := nativeHeldTokens u.tables
  recomputed := u.recomputedTokens
  preemptions := u.preemptions

/-- Tokens that a call was granted. -/
def grantedBy : CacheCall → Option CacheReply → ℕ
  | .admitSequence _ tokens,some (.outcome outcome) => if outcome.ok then tokens else 0
  | .extend _ tokens,some (.outcome outcome) => if outcome.ok then tokens else 0
  | _,_ => 0

/-- Tokens that a released sequence still held. -/
def releasedBy (held : SequenceId → ℕ) : CacheCall → Option CacheReply → ℕ
  | .release sequence,some _ => held sequence
  | _,_ => 0

/-- A preemption on request that returned blocks. -/
def requestedBy : Option CacheReply → ℕ
  | some (.reclaimed blocks) => if 0<blocks then 1 else 0
  | _ => 0

/-- A manager and what was booked beside it. -/
structure Ledger (σ : Type) where
  /-- The manager. -/
  manager : σ
  /-- Tokens of all granted reservations. -/
  granted : ℕ
  /-- Tokens held by sequences when they were released. -/
  released : ℕ
  /-- Length of all lists of preempted sequences that were returned. -/
  listed : ℕ
  /-- Preemptions on request that returned blocks. -/
  requested : ℕ

/-- The runs of a manager with their ledger. -/
def ledgerMachine (m : Machine σ CacheCall) (reply : CacheCall → σ → Option CacheReply)
    (held : σ → SequenceId → ℕ) : Machine (Ledger σ) CacheCall where
  starts l := m.starts l.manager ∧ l.granted=0 ∧ l.released=0 ∧ l.listed=0 ∧ l.requested=0
  steps l call k := m.steps l.manager call k.manager ∧
    k.granted=l.granted+grantedBy call (reply call l.manager) ∧
    k.released=l.released+releasedBy (held l.manager) call (reply call l.manager) ∧
    k.listed=l.listed+(preemptedIn (reply call l.manager)).length ∧
    k.requested=l.requested+requestedBy (reply call l.manager)

/-- What the Python manager replies. -/
def pyReply (call : CacheCall) (s : KVCacheManager) : Option CacheReply :=
  (answered (call.run s)).1

/-- What the native manager replies. -/
def nativeReply (call : CacheCall) (u : NativeManager) : Option CacheReply :=
  (answered (runNative call u)).1

/-- Every granted token is held, was lost to preemption or was released, and
every preemption was listed or asked for. -/
structure Conserved (account : σ → Account) (l : Ledger σ) : Prop where
  tokens : l.granted=(account l.manager).held+(account l.manager).recomputed+l.released
  preemptions : (account l.manager).preemptions=l.listed+l.requested

/-- A call changed the account by what its reply books. -/
structure Posted (before left : Account) (held : SequenceId → ℕ) (call : CacheCall)
    (reply : Option CacheReply) : Prop where
  tokens : left.held+left.recomputed+releasedBy held call reply=
    before.held+before.recomputed+grantedBy call reply
  preemptions : left.preemptions=
    before.preemptions+((preemptedIn reply).length+requestedBy reply)

/-- From a conserving ledger a step leads to one exactly when the call was
posted. -/
theorem conserved_step_iff {m : Machine σ CacheCall}
    {reply : CacheCall → σ → Option CacheReply} {held : σ → SequenceId → ℕ}
    {account : σ → Account} {l k : Ledger σ} {call : CacheCall} (hl : Conserved account l)
    (hs : (ledgerMachine m reply held).steps l call k) :
    Conserved account k ↔ Posted (account l.manager) (account k.manager) (held l.manager) call
      (reply call l.manager) := by
  obtain ⟨_,hg,hr,hp,hq⟩ := hs
  have ht := hl.tokens
  have hc := hl.preemptions
  constructor
  · intro hk
    have ht' := hk.tokens
    have hc' := hk.preemptions
    constructor <;> omega
  · intro hk
    have ht' := hk.tokens
    have hc' := hk.preemptions
    constructor <;> omega

/-- Emptying a table moves its tokens to the lost ones. -/
theorem emptied_worth (hk : s.tables.lookup sequence=some table) :
    heldTokens (emptied s sequence table).tables+(emptied s sequence table).recomputedTokens=
      heldTokens s.tables+s.recomputedTokens := by
  have hs := heldTokens_split hk
  simp only [emptied,heldTokens_insert,SequenceBlockTable.create,SequenceBlockTable.tokenCount]
  omega

/-- So does a run of the eviction loop, table by table. -/
theorem evicts_worth {requester : SequenceId} {evicted : List SequenceId}
    (he : Evicts needed requester s evicted t) :
    heldTokens t.tables+t.recomputedTokens=heldTokens s.tables+s.recomputedTokens := by
  induction he with
  | enough _ => rfl
  | stuck _ _ => rfl
  | evict _ _ hk _ ih => rw [ih,emptied_worth hk]

/-- Making room loses only what it moves to the lost tokens, and counts those
it reports. -/
theorem makesRoom_worth {outcome : AdmissionOutcome} (hm : MakesRoom needed sequence s outcome t) :
    heldTokens t.tables+t.recomputedTokens=heldTokens s.tables+s.recomputedTokens ∧
      t.preemptions=s.preemptions+outcome.preempted.length ∧
      t.recomputedTokens=s.recomputedTokens+(outcome.preempted.map s.tokensHeld).sum := by
  cases hm with
  | fits _ => exact ⟨rfl,rfl,rfl⟩
  | displaced _ he _ => exact ⟨evicts_worth he,he.effect.preemptions_eq,he.effect.recomputed_eq⟩

/-- A grant replaces the tokens of its table. -/
theorem granted_held (hk : s.tables.lookup sequence=some table) (recorded : ℕ) :
    heldTokens (granted s sequence {table with tokens := recorded} needed tokens).tables+
        table.tokens=heldTokens s.tables+(recorded+tokens) := by
  have hs := heldTokens_split hk
  simp only [granted,heldTokens_insert]
  omega

/-- A newcomer holds nothing. -/
theorem register_account (s : KVCacheManager) (sequence : SequenceId) :
    account (s.register sequence)=account s := by
  unfold KVCacheManager.register
  by_cases hm : sequence∈s.tables
  · rw [if_pos hm]
  · rw [if_neg hm]
    simp only [account,heldTokens_insert,SequenceBlockTable.create,Nat.zero_add,
      heldTokens_erase_unknown hm]

/-- A reservation of the Python manager is posted. -/
theorem reserves_posted (h : PoolInvariant total blockSize policy s) {outcome : AdmissionOutcome}
    (hr : Reserves sequence tokens s outcome t) :
    (account t).held+(account t).recomputed=
        (account s).held+(account s).recomputed+(if outcome.ok then tokens else 0) ∧
      (account t).preemptions=(account s).preemptions+outcome.preempted.length := by
  obtain ⟨table,hk,⟨_,rfl,rfl⟩ | ⟨_,mid,hm,rfl⟩⟩ := reserves_room h hr
  · exact ⟨rfl,rfl⟩
  · obtain ⟨_,_,hkm,hok,_⟩ := hm.facts h.partitioned
    obtain ⟨hworth,hcount,_⟩ := makesRoom_worth hm
    have hg : heldTokens (granted mid sequence table (s.additionalBlocksFor sequence tokens)
        tokens).tables+table.tokens=heldTokens mid.tables+(table.tokens+tokens) :=
      granted_held (hkm.trans hk) table.tokens
    rw [hok,if_pos rfl]
    refine ⟨?_,hcount⟩
    change _+mid.recomputedTokens=heldTokens s.tables+s.recomputedTokens+tokens
    change heldTokens (granted mid sequence table _ tokens).tables+_=_
    omega

/-- Every call on the Python manager is posted. -/
theorem py_posted (h : PoolInvariant total blockSize policy s) (call : CacheCall) :
    Posted (account s) (account (after call s)) s.tokensHeld call (pyReply call s) := by
  rw [←answered_after,pyReply]
  rcases call_cases h call with hm | ⟨_,_,rfl,_,_,hx⟩
  · obtain ⟨reply,t,hx,he,_⟩ := hm.returns
    rw [hx]
    cases he with
    | admittedNothing => exact ⟨rfl,rfl⟩
    | extendedNothing => exact ⟨rfl,rfl⟩
    | @admitted sequence _ _ _ _ hr =>
      have hp := reserves_posted (register_invariant h sequence) hr
      rw [register_account] at hp
      exact ⟨hp.1,hp.2⟩
    | extended _ hr =>
      have hp := reserves_posted h hr
      exact ⟨hp.1,hp.2⟩
    | preemptedNothing _ => exact ⟨rfl,rfl⟩
    | preempted hk hb =>
      have hlen := List.length_pos_of_ne_nil hb
      refine ⟨emptied_worth hk,?_⟩
      change s.preemptions+1=s.preemptions+(0+if 0<_ then 1 else 0)
      rw [if_pos hlen]
    | releasedNothing hk =>
      refine ⟨?_,rfl⟩
      change _+_+s.tokensHeld _=_+_+0
      rw [KVCacheManager.tokensHeld,AList.lookup_eq_none.mpr hk]
      rfl
    | released hk =>
      refine ⟨?_,rfl⟩
      have hs := heldTokens_split hk
      change heldTokens (s.tables.erase _)+s.recomputedTokens+s.tokensHeld _=
        heldTokens s.tables+s.recomputedTokens+0
      rw [tokensHeld_of_lookup hk]
      omega
  · rw [hx]
    exact ⟨rfl,rfl⟩

/-- The native counters have room for the sequences that are evicted. -/
def CountersHold (u : NativeManager) (evicted : List SequenceId) : Prop :=
  u.recomputedTokens+(evicted.map u.tokensHeld).sum<2^64 ∧ u.preemptions+evicted.length<2^64

/-- A native reservation for a known sequence wraps no word where it is
granted, and evicts nobody where it raises. -/
def SettlesFor (u : NativeManager) (sequence : SequenceId) (tokens : ℕ) : Prop :=
  (Accepts u sequence tokens → u.tokensHeld sequence+tokens<2^64 ∧
    ∀ evicted, ShortestPrefix (u.additionalBlocksFor sequence tokens) u.freeBlocks u.blocksHeld
      (victimOrder u.policy u.blocksHeld (others u.admissionOrder sequence)) evicted →
        CountersHold u evicted) ∧
  (Spills u sequence tokens → u.additionalBlocksFor sequence tokens≤u.freeBlocks)

/-- A native call keeps the accounts. -/
def Settles (u : NativeManager) : CacheCall → Prop
  | .admitSequence sequence tokens =>
    tokens≠0 → SettlesFor (u.register sequence) sequence tokens
  | .extend sequence tokens => tokens≠0 → sequence∈u.tables → SettlesFor u sequence tokens
  | .preempt sequence => u.blocksHeld sequence≠0 → CountersHold u [sequence]
  | .release _ => True

/-- The shadow's account is the manager's with its counters as words. -/
theorem nativeAccount_shadow (s : KVCacheManager) :
    nativeAccount (shadow s)=
      ⟨heldTokens s.tables,word64 s.recomputedTokens,word64 s.preemptions⟩ := by
  have hfold : ∀ (entries : List (Sigma fun _ : SequenceId => SequenceBlockTable)) (d : ℕ),
      entries.foldl (fun held e => held+e.2.tokens) d=
        d+(entries.flatMap (fun e => List.replicate e.2.tokens ())).length := by
    intro entries
    induction entries with
    | nil => exact fun _ => rfl
    | cons e rest ih =>
      intro d
      rw [List.foldl_cons,ih,List.flatMap_cons,List.length_append,List.length_replicate,
        Nat.add_assoc]
  have hheld : nativeHeldTokens (shadow s).tables=heldTokens s.tables :=
    (hfold s.tables.entries 0).trans (Nat.zero_add _)
  simp only [nativeAccount,hheld]
  rfl

/-- The shadow's sequences hold what the manager's hold. -/
theorem shadow_held (s : KVCacheManager) :
    (shadow s).tokensHeld=s.tokensHeld ∧ (shadow s).blocksHeld=s.blocksHeld := by
  constructor
  · funext k
    rw [NativeManager.tokensHeld,shadow_lookup]
    rfl
  · funext k
    rw [NativeManager.blocksHeld,shadow_lookup]
    rfl

/-- Whoever makes room, the victims are the shortest prefix of the line. -/
theorem makesRoom_shortest {outcome : AdmissionOutcome}
    (h : Partitioned total blockSize policy s) (hm : MakesRoom needed sequence s outcome t) :
    ShortestPrefix needed s.freeBlocks s.blocksHeld
      (victimOrder s.policy s.blocksHeld (others s.admissionOrder sequence)) outcome.preempted := by
  obtain ⟨l,hl⟩ := exists_line s.policy h.order_nodup sequence
  obtain ⟨hturns,hcov,_⟩ := makesRoom_turns hm hl
  rw [←hl]
  exact hturns.shortest hcov

/-- There are no more victims than blocks. -/
theorem makesRoom_le {outcome : AdmissionOutcome} (h : Partitioned total blockSize policy s)
    (hm : MakesRoom needed sequence s outcome t) : outcome.preempted.length≤total := by
  cases hm with
  | fits _ => exact Nat.zero_le _
  | @displaced evicted _ _ he _ =>
    obtain ⟨l,hl⟩ := exists_line s.policy h.order_nodup sequence
    obtain ⟨_,hfree⟩ := evicts_turns he hl
    have hall : ∀ n∈evicted.map s.blocksHeld, 1≤n := by
      intro n hn
      obtain ⟨victim,hv,rfl⟩ := List.mem_map.mp hn
      obtain ⟨_,found,hk,hb⟩ := he.effect.victims_held victim hv
      rw [blocksHeld_of_lookup hk]
      exact List.length_pos_of_ne_nil hb
    have hsum := List.card_nsmul_le_sum (evicted.map s.blocksHeld) 1 hall
    rw [List.length_map,smul_eq_mul,Nat.mul_one] at hsum
    have hpool := (he.partitioned h).partition.length_eq
    rw [List.length_append,List.length_range] at hpool
    change t.freeBlocks+_=total at hpool
    dsimp only
    omega

/-- A reservation moved an account by its grant and its list. -/
def Moved (before left : Account) (granted listed : ℕ) : Prop :=
  left.held+left.recomputed=before.held+before.recomputed+granted ∧
    left.preemptions=before.preemptions+listed

/-- Reading the requester's entry off the shadow. -/
theorem settlesFor_iff (h : Partitioned total blockSize policy s)
    (hk : s.tables.lookup sequence=some table)
    (hn : needed=wordNeed blockSize table.tokens table.blocks.length tokens) :
    SettlesFor (shadow s) sequence tokens ↔
      (table.blocks.length+needed≤total → ¬Overflows blockSize table needed tokens →
        table.tokens+tokens<2^64 ∧ ∀ evicted, ShortestPrefix needed s.freeBlocks s.blocksHeld
          (victimOrder s.policy s.blocksHeld (others s.admissionOrder sequence)) evicted →
            CountersHold (shadow s) evicted) ∧
      (table.blocks.length+needed≤total → 0<needed → Overflows blockSize table needed tokens →
        needed ≤ s.freeBlocks) := by
  have hneed : (shadow s).additionalBlocksFor sequence tokens=needed :=
    (additional_word h hk tokens).trans hn.symm
  have hbs : (shadow s).blockSize=blockSize := h.size_eq
  have htot : (shadow s).allocator.total=total := h.totalBlocks_eq
  have hacc : Accepts (shadow s) sequence tokens ↔ table.blocks.length+needed≤total ∧
      ¬Overflows blockSize table needed tokens := by
    rw [Accepts,(shadow_held s).1,(shadow_held s).2,tokensHeld_of_lookup hk,
      blocksHeld_of_lookup hk,hbs,htot,←hn,Overflows,Nat.not_lt]
  rw [SettlesFor,hacc,spills_iff h hk,←hn,hneed,shadow_freeBlocks,(shadow_held s).1,
    (shadow_held s).2,tokensHeld_of_lookup hk]
  constructor
  · rintro ⟨hgrant,hspill⟩
    exact ⟨fun hle ho => hgrant ⟨hle,ho⟩,fun hle hp ho => hspill ⟨hle,hp,ho⟩⟩
  · rintro ⟨hgrant,hspill⟩
    exact ⟨fun ha => hgrant ha.1 ha.2,fun hs => hspill hs.1 hs.2.1 hs.2.2⟩

/-- Tokens that an ending of a reservation granted. -/
def grantedOf (tokens : ℕ) : Option AdmissionOutcome → ℕ
  | some outcome => if outcome.ok then tokens else 0
  | none => 0

/-- Adding to a word keeps the sum exactly when it is a word. -/
theorem word64_add (n m : ℕ) :
    word64 (n+m)≤word64 n+m ∧ (word64 (n+m)=word64 n+m ↔ word64 n+m<2^64) := by
  unfold word64
  omega

/-- A granted native reservation is posted exactly when no word wraps. -/
theorem served_moved_iff {mid : KVCacheManager} {outcome : AdmissionOutcome}
    (h : Partitioned total blockSize policy s) (hk : s.tables.lookup sequence=some table)
    (hm : MakesRoom needed sequence s outcome mid) :
    Moved (nativeAccount (shadow s)) (nativeAccount (shadow (wordGranted mid sequence table needed
        tokens))) tokens outcome.preempted.length ↔
      table.tokens+tokens<2^64 ∧ CountersHold (shadow s) outcome.preempted := by
  obtain ⟨_,_,hkm,_,_⟩ := hm.facts h
  obtain ⟨hworth,hcount,hlost⟩ := makesRoom_worth hm
  have hg : heldTokens (wordGranted mid sequence table needed tokens).tables+table.tokens=
      heldTokens mid.tables+(word64 (table.tokens+tokens)+0) :=
    granted_held (hkm.trans hk) (word64 (table.tokens+tokens))
  have hle := Nat.mod_le (table.tokens+tokens) (2^64)
  have hlt := Nat.mod_lt (table.tokens+tokens) (show 2^64>0 by omega)
  have hown := word64_of_lt (n := table.tokens+tokens)
  obtain ⟨hrec,hrec'⟩ := word64_add s.recomputedTokens (outcome.preempted.map s.tokensHeld).sum
  obtain ⟨_,hpre'⟩ := word64_add s.preemptions outcome.preempted.length
  rw [←hlost] at hrec hrec'
  rw [←hcount] at hpre'
  rw [Moved,CountersHold,nativeAccount_shadow,nativeAccount_shadow,(shadow_held s).1]
  change heldTokens (wordGranted mid sequence table needed tokens).tables+
      word64 mid.recomputedTokens=_ ∧ word64 mid.preemptions=word64 s.preemptions+_ ↔ _ ∧
    word64 s.recomputedTokens+_<2^64 ∧ word64 s.preemptions+_<2^64
  rw [hpre',←hrec']
  change word64 (table.tokens+tokens)≤_ at hle
  change word64 (table.tokens+tokens)<_ at hlt
  constructor
  · rintro ⟨ht,hp⟩
    dsimp only at ht
    exact ⟨by omega,by omega,hp⟩
  · rintro ⟨hsum,hr,hp⟩
    have hword := hown hsum
    dsimp only
    exact ⟨by omega,hp⟩

/-- A native reservation that raises after it handed out blocks is posted
exactly when it evicted nobody. -/
theorem overflowed_moved_iff {mid : KVCacheManager} {outcome : AdmissionOutcome}
    (h : Partitioned total blockSize policy s) (hto : total≤2^32)
    (hk : s.tables.lookup sequence=some table) (hm : MakesRoom needed sequence s outcome mid) :
    Moved (nativeAccount (shadow s)) (nativeAccount (shadow (granted mid sequence table needed 0)))
        0 0 ↔ needed ≤ s.freeBlocks := by
  obtain ⟨_,_,hkm,_,_⟩ := hm.facts h
  obtain ⟨hworth,hcount,hlost⟩ := makesRoom_worth hm
  have hle := makesRoom_le h hm
  have hg : heldTokens (granted mid sequence table needed 0).tables+table.tokens=
      heldTokens mid.tables+(table.tokens+0) := granted_held (hkm.trans hk) table.tokens
  rw [Moved,nativeAccount_shadow,nativeAccount_shadow,←(makesRoom_shortest h hm).nil_iff]
  change heldTokens (granted mid sequence table needed 0).tables+word64 mid.recomputedTokens=_ ∧
    word64 mid.preemptions=word64 s.preemptions+0 ↔ _
  constructor
  · rintro ⟨_,hp⟩
    rw [hcount] at hp
    unfold word64 at hp
    refine List.length_eq_zero_iff.mp ?_
    omega
  · intro hn
    rw [hn,List.map_nil,List.sum_nil,Nat.add_zero] at hlost
    rw [hn,List.length_nil,Nat.add_zero] at hcount
    rw [hlost,hcount]
    dsimp only
    exact ⟨by omega,rfl⟩

/-- A native reservation for a known sequence is posted exactly when it
settles. -/
theorem word_moved_iff (h : Partitioned total blockSize policy s) (hto : total≤2^32)
    (hk : s.tables.lookup sequence=some table) {outcome : Option AdmissionOutcome}
    (hr : WordReserves total blockSize sequence tokens s outcome t) :
    Moved (nativeAccount (shadow s)) (nativeAccount (shadow t)) (grantedOf tokens outcome)
        (preemptedIn (outcome.map .outcome)).length ↔
      SettlesFor (shadow s) sequence tokens := by
  have hneed := additional_word h hk tokens
  rw [settlesFor_iff h hk hneed]
  cases hr with
  | refused hk' hn =>
    rw [hk,Option.some.injEq] at hk'
    subst hk'
    exact iff_of_true ⟨rfl,rfl⟩ ⟨fun hle => by omega,fun hle => by omega⟩
  | @served _ outcome mid hk' hn hm ho =>
    rw [hk,Option.some.injEq] at hk'
    subst hk'
    have hok : outcome.ok=true := (hm.facts h).2.2.2.1
    have hshort := makesRoom_shortest h hm
    rw [grantedOf,if_pos hok]
    refine (served_moved_iff h hk hm).trans ⟨fun hc => ⟨fun _ _ => ⟨hc.1,?_⟩,?_⟩,?_⟩
    · intro evicted he
      rw [he.unique hshort]
      exact hc.2
    · exact fun _ _ hover => absurd hover ho
    · rintro ⟨hgrant,_⟩
      obtain ⟨hsum,hcounters⟩ := hgrant hn ho
      exact ⟨hsum,hcounters _ hshort⟩
  | overflowed hk' hn hm ho =>
    rw [hk,Option.some.injEq] at hk'
    subst hk'
    refine (overflowed_moved_iff h hto hk hm).trans ⟨fun hf => ⟨?_,fun _ _ _ => hf⟩,?_⟩
    · exact fun _ hover => absurd ho hover
    · rintro ⟨_,hspill⟩
      rcases Nat.eq_zero_or_pos ((shadow s).additionalBlocksFor sequence tokens) with hz | hp
      · omega
      · exact hspill hn hp ho

/-- A reservation call is posted when it moved the account so. -/
theorem posted_reservation {before left : Account} {held : SequenceId → ℕ} {call : CacheCall}
    {outcome : Option AdmissionOutcome}
    (hc : call=.admitSequence sequence tokens ∨ call=.extend sequence tokens) :
    Posted before left held call (outcome.map .outcome) ↔
      Moved before left (grantedOf tokens outcome) (preemptedIn (outcome.map .outcome)).length := by
  have hg : grantedBy call (outcome.map .outcome)=grantedOf tokens outcome ∧
      releasedBy held call (outcome.map .outcome)=0 ∧
      requestedBy (outcome.map .outcome)=0 := by
    rcases hc with rfl | rfl <;> cases outcome <;> exact ⟨rfl,rfl,rfl⟩
  obtain ⟨hg,hr,hq⟩ := hg
  constructor
  · rintro ⟨ht,hp⟩
    rw [hg,hr,Nat.add_zero] at ht
    rw [hq,Nat.add_zero] at hp
    exact ⟨ht,hp⟩
  · rintro ⟨ht,hp⟩
    exact ⟨by rw [hg,hr,Nat.add_zero,ht],by rw [hq,Nat.add_zero,hp]⟩

/-- A native preemption on request is posted exactly when the counters hold. -/
theorem preempted_posted_iff (hk : s.tables.lookup sequence=some table) (hb : table.blocks≠[]) :
    Posted (nativeAccount (shadow s)) (nativeAccount (shadow (emptied s sequence table)))
        (shadow s).tokensHeld (.preempt sequence) (some (.reclaimed table.blocks.length)) ↔
      CountersHold (shadow s) [sequence] := by
  have hlen := List.length_pos_of_ne_nil hb
  have hworth := emptied_worth hk
  have hrec : (emptied s sequence table).recomputedTokens=s.recomputedTokens+table.tokens := rfl
  obtain ⟨hle,hword⟩ := word64_add s.recomputedTokens table.tokens
  obtain ⟨_,hcount⟩ := word64_add s.preemptions 1
  have hq : requestedBy (some (.reclaimed table.blocks.length))=1 := if_pos hlen
  rw [CountersHold,(shadow_held s).1,List.map_singleton,List.sum_singleton,
    tokensHeld_of_lookup hk,List.length_singleton]
  change _ ↔ word64 s.recomputedTokens+_<2^64 ∧ word64 s.preemptions+1<2^64
  rw [←hword,←hcount,nativeAccount_shadow,nativeAccount_shadow,hrec]
  rw [hrec] at hworth
  constructor
  · rintro ⟨ht,hp⟩
    rw [hq] at hp
    change heldTokens (emptied s sequence table).tables+word64 (s.recomputedTokens+table.tokens)+0=
      heldTokens s.tables+word64 s.recomputedTokens+0 at ht
    exact ⟨by omega,hp⟩
  · rintro ⟨ht,hp⟩
    refine ⟨?_,by rw [hq]; exact hp⟩
    change heldTokens (emptied s sequence table).tables+word64 (s.recomputedTokens+table.tokens)+0=
      heldTokens s.tables+word64 s.recomputedTokens+0
    omega

/-- A native call is posted exactly when it settles. -/
theorem native_posted_iff (h : Partitioned total blockSize policy s) (hto : total≤2^32)
    (call : CacheCall) :
    Posted (nativeAccount (shadow s)) (nativeAccount (nativeAfter call (shadow s)))
      (shadow s).tokensHeld call (nativeReply call (shadow s)) ↔ Settles (shadow s) call := by
  obtain ⟨reply,t,he,hx⟩ := word_cases h hto call
  rw [nativeAfter,nativeReply,hx]
  cases he with
  | admittedNothing => exact iff_of_true ⟨rfl,rfl⟩ (fun hz => absurd rfl hz)
  | extendedNothing => exact iff_of_true ⟨rfl,rfl⟩ (fun hz => absurd rfl hz)
  | @admitted sequence tokens outcome _ ht hr =>
    have hreg : nativeAccount (shadow (s.register sequence))=nativeAccount (shadow s) := by
      have ha := register_account s sequence
      simp only [account,Account.mk.injEq] at ha
      rw [nativeAccount_shadow,nativeAccount_shadow,ha.1,ha.2.1,ha.2.2]
    have hm := word_moved_iff (register_partitioned h sequence) hto (register_lookup s sequence) hr
    rw [hreg,←posted_reservation (Or.inl rfl)] at hm
    rw [hm,Settles,shadow_register]
    exact ⟨fun hs _ => hs,fun hs => hs (Nat.pos_iff_ne_zero.mp ht)⟩
  | @extended sequence tokens outcome _ ht hr =>
    have hk : sequence∈s.tables := wordReserves_known hr
    obtain ⟨table,hf⟩ := Option.isSome_iff_exists.mp (AList.lookup_isSome.mpr hk)
    rw [posted_reservation (Or.inr rfl),word_moved_iff h hto hf hr]
    exact ⟨fun hs _ _ => hs,fun hs => hs (Nat.pos_iff_ne_zero.mp ht) hk⟩
  | extendedUnknown _ hk =>
    exact iff_of_true ⟨rfl,rfl⟩ (fun _ hm => absurd (show _∈s.tables from hm) hk)
  | preemptedNothing hb =>
    refine iff_of_true ⟨rfl,rfl⟩ (fun hn => absurd ?_ hn)
    rw [(shadow_held s).2]
    exact hb
  | @preempted sequence table hk hb =>
    rw [preempted_posted_iff hk hb]
    refine ⟨fun hc _ => hc,fun hs => hs ?_⟩
    rw [(shadow_held s).2,blocksHeld_of_lookup hk]
    exact fun hz => hb (List.length_eq_zero_iff.mp hz)
  | @releasedNothing sequence hk =>
    refine iff_of_true ⟨?_,rfl⟩ trivial
    change _+_+(shadow s).tokensHeld sequence=_+_+0
    rw [(shadow_held s).1,KVCacheManager.tokensHeld,AList.lookup_eq_none.mpr hk]
  | @released sequence table hk =>
    refine iff_of_true ⟨?_,rfl⟩ trivial
    have hs := heldTokens_split hk
    rw [nativeAccount_shadow,nativeAccount_shadow]
    change heldTokens (s.tables.erase sequence)+word64 s.recomputedTokens+
      (shadow s).tokensHeld sequence=heldTokens s.tables+word64 s.recomputedTokens+0
    rw [(shadow_held s).1,tokensHeld_of_lookup hk]
    omega

/-- The runs of the Python manager with their ledger. -/
def pyLedger (blockCount blockSize : ℕ) (policy : PreemptionPolicy) :
    Machine (Ledger KVCacheManager) CacheCall :=
  ledgerMachine (cacheMachine blockCount blockSize policy) pyReply KVCacheManager.tokensHeld

/-- The runs of the native manager with their ledger. -/
def nativeLedger (blockCount blockSize : ℕ) (policy : PreemptionPolicy) :
    Machine (Ledger NativeManager) CacheCall :=
  ledgerMachine (nativeMachine blockCount blockSize policy) nativeReply NativeManager.tokensHeld

/-- The managers of a ledger's runs are those of the manager's runs. -/
theorem ledger_manager {m : Machine σ CacheCall} {reply : CacheCall → σ → Option CacheReply}
    {held : σ → SequenceId → ℕ} {l : Ledger σ} (hl : (ledgerMachine m reply held).Reaches l) :
    m.Reaches l.manager :=
  hl.invariant (P := fun l => m.Reaches l.manager) (fun _ hs => .start hs.1)
    (fun _ _ _ hr hs => .step hr hs.1)

/-- A new native manager has held nothing. -/
theorem native_new {u : NativeManager} (hu : NativeManager.create total blockSize policy=.ok u) :
    nativeAccount u=⟨0,0,0⟩ := by
  unfold NativeManager.create at hu
  split at hu
  · exact absurd hu (by simp only [reduceCtorEq,not_false_eq_true])
  · rw [Except.ok.injEq] at hu
    rw [←hu]
    rfl

/-- So has a new Python one. -/
theorem py_new (hs : KVCacheManager.create total blockSize policy=.ok s) :
    account s=⟨0,0,0⟩ := by
  unfold KVCacheManager.create at hs
  split at hs
  · exact absurd hs (by simp only [reduceCtorEq,not_false_eq_true])
  · rw [Except.ok.injEq] at hs
    rw [←hs]
    rfl

/-- A new ledger conserves. -/
theorem conserved_new {account : σ → Account} {l : Ledger σ}
    (ha : account l.manager=⟨0,0,0⟩)
    (hz : l.granted=0 ∧ l.released=0 ∧ l.listed=0 ∧ l.requested=0) : Conserved account l := by
  obtain ⟨hg,hr,hp,hq⟩ := hz
  constructor
  · rw [ha,hg,hr]
    rfl
  · rw [ha,hp,hq]

/-- Every run of the Python manager conserves its tokens. A native one, over
block ids that fit their type, does so as long as every call settles, and no
longer: a step from a conserving ledger conserves exactly when its call
settles. -/
theorem tokens_conserved (total blockSize : ℕ) (policy : PreemptionPolicy) :
    (∀ l, (pyLedger total blockSize policy).Reaches l → Conserved account l) ∧
    (total≤2^32 →
      (∀ l, ((nativeLedger total blockSize policy).guarded
          (fun l call => Settles l.manager call)).Reaches l → Conserved nativeAccount l) ∧
      ∀ l call k, (nativeLedger total blockSize policy).Reaches l → Conserved nativeAccount l →
        (nativeLedger total blockSize policy).steps l call k →
          (Conserved nativeAccount k ↔ Settles l.manager call)) := by
  refine ⟨fun l hl => ?_,fun hto => ?_⟩
  · have hb : (pyLedger total blockSize policy).Reaches l ∧ Conserved account l := by
      refine hl.invariant (P := fun l => (pyLedger total blockSize policy).Reaches l ∧
        Conserved account l) (fun l hs => ⟨.start hs,conserved_new (py_new hs.1) hs.2⟩) ?_
      rintro l call k ⟨hr,hc⟩ hs
      refine ⟨.step hr hs,(conserved_step_iff hc hs).mpr ?_⟩
      have hp := py_posted (reaches_invariant (ledger_manager hr)) call
      rwa [show k.manager=after call l.manager from hs.1]
    exact hb.2
  · have hstep : ∀ l call k, (nativeLedger total blockSize policy).Reaches l →
        Conserved nativeAccount l → (nativeLedger total blockSize policy).steps l call k →
          (Conserved nativeAccount k ↔ Settles l.manager call) := by
      intro l call k hr hc hs
      obtain ⟨s,hu,h,_⟩ := reaches_shadow hto (ledger_manager hr)
      rw [conserved_step_iff hc hs,show k.manager=nativeAfter call l.manager from hs.1.2,hu]
      exact native_posted_iff h hto call
    refine ⟨fun l hl => ?_,hstep⟩
    have hb : (nativeLedger total blockSize policy).Reaches l ∧ Conserved nativeAccount l := by
      refine hl.invariant (P := fun l => (nativeLedger total blockSize policy).Reaches l ∧
        Conserved nativeAccount l) (fun l hs => ⟨.start hs,conserved_new (native_new hs.1) hs.2⟩) ?_
      rintro l call k ⟨hr,hc⟩ ⟨hg,hs⟩
      exact ⟨.step hr hs,(hstep l call k hr hc hs).mpr hg⟩
    exact hb.2

/-- The ledger of a new native manager that admitted two tokens. -/
def twoBooked : Ledger NativeManager := ⟨twoHeld,2,0,0,0⟩

/-- And then granted `2^64-1` more. -/
def wrappedBooked : Ledger NativeManager :=
  ⟨nativeAfter (.extend 1 (2^64-1)) twoHeld,2^64+1,0,0,0⟩

/-- The new native manager keeps its accounts when it admits two tokens. -/
theorem first_settles : Settles freshNative (.admitSequence 1 2) := by
  refine fun _ => ⟨fun _ => ⟨by decide +kernel,fun evicted he => ?_⟩,fun _ => by decide +kernel⟩
  rw [he.nil_iff.mpr (by decide +kernel)]
  exact ⟨by decide +kernel,by decide +kernel⟩

/-- The two tokens are booked in a run whose calls settle. -/
theorem twoBooked_reached : ((nativeLedger 4 2 .newest).guarded
    (fun l call => Settles l.manager call)).Reaches twoBooked := by
  have hstart : (nativeLedger 4 2 .newest).starts ⟨freshNative,0,0,0,0⟩ := ⟨rfl,rfl,rfl,rfl,rfl⟩
  have hstep : (nativeLedger 4 2 .newest).steps ⟨freshNative,0,0,0,0⟩ (.admitSequence 1 2)
      twoBooked := by
    refine ⟨⟨by simp only [WordCall]; decide,rfl⟩,?_⟩
    decide +kernel
  exact .step (.start hstart) ⟨first_settles,hstep⟩

/-- So does an extension by the largest word follow. -/
theorem wrappedBooked_step :
    (nativeLedger 4 2 .newest).steps twoBooked (.extend 1 (2^64-1)) wrappedBooked := by
  refine ⟨⟨by simp only [WordCall]; decide,rfl⟩,?_⟩
  decide +kernel

/-- The two tokens are accounted for, and the extension is not unless it
settles. -/
theorem twoBooked_conserved :
    Conserved nativeAccount twoBooked ∧
      (Conserved nativeAccount wrappedBooked ↔ Settles twoHeld (.extend 1 (2^64-1))) := by
  have hc := (tokens_conserved 4 2 .newest).2 (by decide)
  have hr := hc.1 twoBooked twoBooked_reached
  exact ⟨hr,hc.2 twoBooked _ wrappedBooked twoBooked_reached.of_guarded hr wrappedBooked_step⟩

/-- After both, `2^64+1` tokens were granted and one is held. -/
theorem wrapped_unaccounted :
    (nativeLedger 4 2 .newest).Reaches wrappedBooked ∧ ¬Conserved nativeAccount wrappedBooked := by
  refine ⟨.step twoBooked_reached.of_guarded wrappedBooked_step,?_⟩
  intro hc
  exact absurd hc.tokens (by decide +kernel)

end CudaForge.TokenLedger
