import CudaForge.CacheConformance

/-!
# Scripts of cache calls on both managers

A script is a list of calls and lookups, run on a fresh manager of either
implementation. The two agree on a script exactly when no reservation of the
Python run rounds beyond `size_t`, provided the ids of its blocks fit their
native type.
-/

namespace CudaForge.CacheScripts

open ExceptionState PythonBuiltins CacheBlocks CacheManager CeilDivision KeyedTables CacheInvariant
open CacheReservation CachePlacement CacheNative CacheConformance
open CacheManager.KVCacheManager (register)

variable {total blockSize bound : ℕ} {policy : PreemptionPolicy} {s t : KVCacheManager}
variable {sequence : SequenceId} {table : SequenceBlockTable} {tokens : ℕ}

/-- One line of a script. -/
inductive ScriptOp where
  | call (call : CacheCall)
  | locate (sequence : SequenceId) (tokenIndex : ℕ)
  deriving DecidableEq

/-- What a line of a script shows. -/
inductive ScriptReply where
  | reply (reply : CacheReply)
  | place (place : BlockId×ℕ)
  | raised
  | undefined
  deriving DecidableEq

/-- One line on the Python manager. -/
def pyStep (s : KVCacheManager) : ScriptOp → ScriptReply×KVCacheManager
  | .call call =>
    match call.run s with
    | .ok reply t => (.reply reply,t)
    | .error _ t => (.raised,t)
  | .locate sequence tokenIndex =>
    match s.locate sequence tokenIndex with
    | .ok place => (.place place,s)
    | .error _ => (.raised,s)

/-- What a native exception shows; undefined behaviour is not an exception. -/
def shown : NativeError → ScriptReply
  | .undefined => .undefined
  | _ => .raised

/-- One line on the native manager. -/
def nativeStep (u : NativeManager) : ScriptOp → ScriptReply×NativeManager
  | .call call =>
    match runNative call u with
    | .ok reply v => (.reply reply,v)
    | .error e v => (shown e,v)
  | .locate sequence tokenIndex =>
    match u.locate sequence tokenIndex with
    | .ok place => (.place place,u)
    | .error e => (shown e,u)

/-- Run a script line by line, going on after an exception. -/
def replay {σ : Type} (step : σ → ScriptOp → ScriptReply×σ) :
    List ScriptOp → σ → List ScriptReply×σ
  | [],s => ([],s)
  | op::rest,s =>
    let next := step s op
    let later := replay step rest next.2
    (next.1::later.1,later.2)

/-- What is compared once a script has run. -/
structure Observed where
  /-- Blocks no sequence holds. -/
  freeBlocks : ℕ
  /-- Known sequences. -/
  activeSequences : ℕ
  /-- Preemptions since construction. -/
  preemptionCount : ℕ
  /-- Tokens lost to them. -/
  recomputedTokens : ℕ
  /-- Tokens held, by sequence. -/
  tokensHeld : SequenceId → ℕ
  /-- Blocks held, by sequence. -/
  blocksHeld : SequenceId → ℕ

/-- The Python manager's readings. -/
def observePy (s : KVCacheManager) : Observed :=
  ⟨s.freeBlocks,s.activeSequences,s.preemptions,s.recomputedTokens,s.tokensHeld,s.blocksHeld⟩

/-- The native manager's readings. -/
def observeNative (u : NativeManager) : Observed :=
  ⟨u.freeBlocks,u.activeSequences,u.preemptions,u.recomputedTokens,u.tokensHeld,u.blocksHeld⟩

/-- Both constructors accept the arguments or both refuse them, and after
acceptance the script shows the same on both and ends in equal readings. -/
def Agree (blockCount blockSize : ℕ) (policy : PreemptionPolicy) (script : List ScriptOp) :
    Prop :=
  match KVCacheManager.create blockCount blockSize policy,
    NativeManager.create blockCount blockSize policy with
  | .ok s,.ok u =>
    (replay pyStep script s).1=(replay nativeStep script u).1 ∧
      observePy (replay pyStep script s).2=observeNative (replay nativeStep script u).2
  | .error _,.error _ => True
  | _,_ => False

/-- Tokens one line asks for. -/
def asked : ScriptOp → ℕ
  | .call (.admitSequence _ tokens) => tokens
  | .call (.extend _ tokens) => tokens
  | _ => 0

/-- Tokens a script asks for. -/
def askedBy (script : List ScriptOp) : ℕ := (script.map asked).sum

/-- Rounding one sequence's tokens up to whole blocks stays within `size_t`. -/
def SequenceRounds (s : KVCacheManager) (sequence : SequenceId) (tokens : ℕ) : Prop :=
  RoundsWithin s.totalBlocks s.blockSize (s.tokensHeld sequence) (s.blocksHeld sequence) tokens

/-- The reservation of a line, when it makes one, rounds within `size_t`. -/
def OpRounds (s : KVCacheManager) : ScriptOp → Prop
  | .call (.admitSequence sequence tokens) => SequenceRounds s sequence tokens
  | .call (.extend sequence tokens) => sequence∈s.tables → SequenceRounds s sequence tokens
  | _ => True

/-- Every line of the Python run from a manager rounds within `size_t`, and
every id held on the way is within the native type. -/
def FitsFrom : List ScriptOp → KVCacheManager → Prop
  | [],s => IdsFit s
  | op::rest,s => IdsFit s ∧ OpRounds s op ∧ FitsFrom rest (pyStep s op).2

/-- The Python run of a script on a fresh manager stays within the native
types. -/
def ScriptFits (blockCount blockSize : ℕ) (policy : PreemptionPolicy) (script : List ScriptOp) :
    Prop :=
  match KVCacheManager.create blockCount blockSize policy with
  | .ok s => FitsFrom script s
  | .error _ => True

instance (s : KVCacheManager) : Decidable (IdsFit s) :=
  inferInstanceAs (Decidable (∀ block∈heldBlocks s.tables, block<2^32))

instance (s : KVCacheManager) (sequence : SequenceId) (tokens : ℕ) :
    Decidable (SequenceRounds s sequence tokens) :=
  inferInstanceAs (Decidable (RoundsWithin _ _ _ _ _))

instance (s : KVCacheManager) : (op : ScriptOp) → Decidable (OpRounds s op)
  | .call (.admitSequence sequence tokens) =>
    inferInstanceAs (Decidable (SequenceRounds s sequence tokens))
  | .call (.extend sequence tokens) =>
    inferInstanceAs (Decidable (sequence∈s.tables → SequenceRounds s sequence tokens))
  | .call (.preempt _) => inferInstanceAs (Decidable True)
  | .call (.release _) => inferInstanceAs (Decidable True)
  | .locate _ _ => inferInstanceAs (Decidable True)

instance decidableFitsFrom : (script : List ScriptOp) → (s : KVCacheManager) →
    Decidable (FitsFrom script s)
  | [],s => inferInstanceAs (Decidable (IdsFit s))
  | op::rest,s =>
    have := decidableFitsFrom rest (pyStep s op).2
    inferInstanceAs (Decidable (IdsFit s ∧ OpRounds s op ∧ FitsFrom rest (pyStep s op).2))

instance (blockCount blockSize : ℕ) (policy : PreemptionPolicy) (script : List ScriptOp) :
    Decidable (ScriptFits blockCount blockSize policy script) :=
  let decided : (result : Except PyError KVCacheManager) →
      Decidable (match result with | .ok s => FitsFrom script s | .error _ => True)
    | .ok s => decidableFitsFrom script s
    | .error _ => inferInstanceAs (Decidable True)
  decided _

/-- Both managers read alike. -/
theorem observe_image (s : KVCacheManager) : observeNative (image s)=observePy s := by
  have ht : (image s).tokensHeld=s.tokensHeld := funext (image_tokensHeld s)
  have hb : (image s).blocksHeld=s.blocksHeld := funext (image_blocksHeld s)
  rw [observeNative,observePy,image_freeBlocks,image_activeSequences,ht,hb]
  rfl

/-- Both managers register a sequence alike. -/
theorem image_register (s : KVCacheManager) (sequence : SequenceId) :
    (image s).register sequence=image (s.register sequence) := by
  unfold NativeManager.register register
  by_cases hm : sequence∈s.tables
  · rw [if_pos hm,if_pos (show sequence∈(image s).tables from hm)]
  · rw [if_neg hm,if_neg (show sequence∉(image s).tables from hm)]
    simp only [image,Finmap.insert_toFinmap]

/-- Native admission is extension after registering. -/
theorem nativeAdmit_eq (sequence : SequenceId) (ht : 0<tokens) (u : NativeManager) :
    NativeManager.admitSequence sequence tokens u=
      NativeManager.reserve sequence tokens false (u.register sequence) := by
  unfold NativeManager.admitSequence NativeManager.reserve
  rw [if_neg (Nat.pos_iff_ne_zero.mp ht),if_neg (Nat.pos_iff_ne_zero.mp ht)]
  rfl

/-- Extending an unknown sequence raises on the native side too. -/
theorem nativeExtend_unknown (hk : sequence∉s.tables) (ht : 0<tokens) :
    runNative (.extend sequence tokens) (image s)=
      .error (.invalidArgument "KVCacheManager: sequence is not admitted") (image s) := by
  have hr : NativeManager.extend sequence tokens (image s)=
      .error (.invalidArgument "KVCacheManager: sequence is not admitted") (image s) := by
    unfold NativeManager.extend NativeManager.reserve
    rw [if_neg (Nat.pos_iff_ne_zero.mp ht)]
    simp only [ExceptionState.bind_modify,ExceptionState.bind_get,Bool.false_eq_true,if_false,
      image_lookup,
      AList.lookup_eq_none.mpr hk]
    rfl
  simp only [runNative,bind,EStateM.bind,hr]

/-- A known sequence's own table rounds as its readings do. -/
theorem rounds_of_lookup (hk : s.tables.lookup sequence=some table) :
    SequenceRounds s sequence tokens ↔
      RoundsWithin s.totalBlocks s.blockSize table.tokens table.blocks.length tokens := by
  rw [SequenceRounds,tokensHeld_of_lookup hk,blocksHeld_of_lookup hk]

/-- Registering does not change what a sequence asks for. -/
theorem rounds_register :
    SequenceRounds (s.register sequence) sequence tokens ↔ SequenceRounds s sequence tokens := by
  rw [rounds_of_lookup (register_lookup s sequence)]
  have hs : (s.register sequence).blockSize=s.blockSize := by
    unfold register
    split <;> rfl
  have ht : (s.register sequence).totalBlocks=s.totalBlocks := by
    unfold register
    split <;> rfl
  rw [hs,ht,SequenceRounds,KVCacheManager.tokensHeld,KVCacheManager.blocksHeld]
  cases s.tables.lookup sequence with
  | none => exact Iff.rfl
  | some table => exact Iff.rfl

/-- A lookup shows the same on both managers. -/
theorem locate_image (h : PoolInvariant total blockSize policy s) (sequence : SequenceId)
    (tokenIndex : ℕ) :
    nativeStep (image s) (.locate sequence tokenIndex)=
      ((pyStep s (.locate sequence tokenIndex)).1,image s) := by
  rw [nativeStep,pyStep,NativeManager.locate,KVCacheManager.locate,image_lookup]
  cases hk : s.tables.lookup sequence with
  | none => rfl
  | some table =>
    dsimp only
    have hx := h.exact_tables sequence table hk
    by_cases hi : table.tokens ≤ tokenIndex
    · rw [nativeLocate,SequenceBlockTable.locate,if_pos hi,if_pos hi]
      rfl
    · obtain ⟨block,hl,hb⟩ := locate_of_lt h.size_pos hx (Nat.lt_of_not_le hi)
      rw [hl,nativeLocate,if_neg hi,hx.size_eq,hb]

/-- The accounts of a granted reservation. -/
theorem reserves_accounted (h : PoolInvariant total blockSize policy s) (ha : Accounted bound s)
    (hfit : SequenceRounds s sequence tokens) {outcome : AdmissionOutcome}
    (hr : Reserves sequence tokens s outcome t) (hids : IdsFit t) :
    Accounted (bound+tokens) t := by
  have hcap : ∀ {table : SequenceBlockTable}, s.tables.lookup sequence=some table →
      table.blocks.length+s.additionalBlocksFor sequence tokens≤total →
      (table.blocks.length+s.additionalBlocksFor sequence tokens)*s.blockSize<2^64 := by
    intro table hk hle
    have hown := ha.capacity_lt sequence table hk
    have hw := (rounds_of_lookup hk).mp hfit
    rw [h.totalBlocks_eq,h.size_eq] at hw
    rw [additional_exact h hk tokens] at hle ⊢
    rw [h.size_eq] at hown ⊢
    rcases hw with hc | ⟨_,hc⟩
    · exact (Nat.mul_le_mul_right _ ((ceilDiv_le_iff h.size_pos _ _).mpr hc)).trans_lt hown
    · exact hc hle
  cases hr with
  | refused _ _ => exact ha.mono (Nat.le_add_right _ _)
  | fits hk hf =>
    have ho := h.reclaimable_add_own hk
    exact granted_accounted ha hk hf (hcap hk (by omega)) hids
  | @displaced _ evicted mid hk hf he hfree =>
    have hmid := he.invariant h
    have hspared : sequence∉evicted := fun hm => (he.effect.victims_held sequence hm).1 rfl
    have hkm := (he.effect.spared_lookup sequence hspared).trans hk
    have ho := hmid.reclaimable_add_own hkm
    have hs : mid.blockSize=s.blockSize := hmid.size_eq.trans h.size_eq.symm
    exact granted_accounted (evicts_accounted he h ha) hkm hfree
      (by rw [hs]; exact hcap hk (by omega)) hids

/-- A reservation of the native manager, known or not, follows the Python
one. -/
theorem nativeReservation_meets {call : CacheCall} {start : KVCacheManager}
    {outcome : AdmissionOutcome} (h : PoolInvariant total blockSize policy start)
    (ha : Accounted bound start) (hbound : bound+tokens<2^64) (hto : total<2^64)
    (hk : start.tables.lookup sequence=some table) (ht : 0<tokens)
    (hfit : SequenceRounds start sequence tokens)
    (hr : Reserves sequence tokens start outcome t) (hids : IdsFit t)
    (hacc : Accounted (bound+tokens) t) (hrun : runNative call (image s)=(do
      let outcome ← NativeManager.reserve sequence tokens false
      pure (.outcome outcome) : NativeM CacheReply) (image start)) :
    Meets (runNative call) (image s) (fun reply u => reply=.outcome outcome ∧ u=image t) := by
  have hw := (rounds_of_lookup hk).mp hfit
  rw [h.totalBlocks_eq,h.size_eq] at hw
  have hm := nativeReserve_follows h ha hbound hto hk ht hw hr hids hacc
  unfold Meets
  rw [hrun,bind_ok hm]
  exact ⟨rfl,rfl⟩

/-- A call that returns and rounds within `size_t` has the same effect on
both managers. -/
theorem effect_image (h : PoolInvariant total blockSize policy s) (ha : Accounted bound s)
    (hto : total<2^64) {call : CacheCall} {reply : CacheReply}
    (hbound : bound+asked (.call call)<2^64) (hfit : OpRounds s (.call call))
    (hids : IdsFit t) (he : CallEffect s call reply t) :
    Meets (runNative call) (image s) (fun shown u => shown=reply ∧ u=image t) ∧
      Accounted (bound+asked (.call call)) t := by
  cases he with
  | admittedNothing => exact ⟨⟨rfl,rfl⟩,ha⟩
  | extendedNothing => exact ⟨⟨rfl,rfl⟩,ha⟩
  | @admitted sequence tokens outcome _ ht hr =>
    have hi := register_invariant h sequence
    have hreg := register_accounted ha sequence
    have hround := rounds_register.mpr hfit
    have hacc := reserves_accounted hi hreg hround hr hids
    refine ⟨nativeReservation_meets hi hreg hbound hto (register_lookup s sequence) ht hround hr
      hids hacc ?_,hacc⟩
    rw [←image_register]
    have hn := nativeAdmit_eq sequence ht (image s)
    simp only [runNative,bind,EStateM.bind,hn]
    rfl
  | @extended sequence tokens outcome _ ht hr =>
    obtain ⟨table,hk⟩ : ∃ table, s.tables.lookup sequence=some table := by
      cases hr with
      | refused hk _ => exact ⟨_,hk⟩
      | fits hk _ => exact ⟨_,hk⟩
      | displaced hk _ _ _ => exact ⟨_,hk⟩
    have hround := hfit (AList.lookup_isSome.mp (by rw [hk]; rfl))
    have hacc := reserves_accounted h ha hround hr hids
    exact ⟨nativeReservation_meets h ha hbound hto hk ht hround hr hids hacc rfl,hacc⟩
  | @preemptedNothing sequence hb =>
    refine ⟨?_,ha⟩
    rw [KVCacheManager.blocksHeld] at hb
    simp only [runNative,NativeManager.preempt,meets_bind,meets_get,image_lookup]
    cases hk : s.tables.lookup sequence with
    | none => exact ⟨rfl,rfl⟩
    | some table =>
      rw [hk] at hb
      dsimp only at hb ⊢
      rw [if_pos hb]
      exact ⟨rfl,rfl⟩
  | @preempted sequence table hk hb =>
    have hacc := emptied_accounted h ha hk hb
    refine ⟨?_,hacc⟩
    have hl : table.blocks.length≠0 := fun he => hb (List.length_eq_zero_iff.mp he)
    simp only [runNative,NativeManager.preempt,meets_bind,meets_get,image_lookup,hk]
    rw [if_neg hl]
    simp only [meets_bind,meets_pure,true_and]
    rw [←shadow_eq_image ha (by simp only [asked] at hbound; omega),
      ←shadow_eq_image hacc (by simp only [asked] at hbound; omega)]
    exact reclaim_shadow h.partitioned ha.ids_lt hk
  | @releasedNothing sequence hk =>
    refine ⟨?_,ha⟩
    simp only [runNative,NativeManager.release,meets_bind,meets_get,image_lookup,
      AList.lookup_eq_none.mpr hk]
    exact ⟨rfl,rfl⟩
  | @released sequence table hk =>
    have hacc := forgotten_accounted ha hk
    refine ⟨?_,hacc⟩
    simp only [runNative,meets_bind,meets_pure,true_and]
    rw [←shadow_eq_image ha (by simp only [asked] at hbound; omega),
      ←shadow_eq_image hacc (by simp only [asked] at hbound; omega)]
    exact release_shadow h.partitioned ha.ids_lt hk

/-- A request that leaves `size_t` is for some token. -/
theorem tokens_pos_of_not_rounds (h : PoolInvariant total blockSize policy s)
    (hk : s.tables.lookup sequence=some table)
    (hr : ¬RoundsWithin total blockSize table.tokens table.blocks.length tokens) : 0<tokens := by
  rw [RoundsWithin,not_or] at hr
  have hx := (h.exact_tables sequence table hk).blocks_eq
  have hc := le_ceilDiv_mul h.size_pos table.tokens
  rw [←hx] at hc
  omega

/-- One line that rounds within `size_t` shows the same on both managers and
leaves one the image of the other. -/
theorem step_follows (h : PoolInvariant total blockSize policy s) (ha : Accounted bound s)
    (hto : total<2^64) {op : ScriptOp} (hbound : bound+asked op<2^64) (hfit : OpRounds s op)
    (hids : IdsFit (pyStep s op).2) :
    nativeStep (image s) op=((pyStep s op).1,image (pyStep s op).2) ∧
      PoolInvariant total blockSize policy (pyStep s op).2 ∧
      Accounted (bound+asked op) (pyStep s op).2 := by
  cases op with
  | locate sequence tokenIndex =>
    have hs : (pyStep s (.locate sequence tokenIndex)).2=s := by
      rw [pyStep]
      cases s.locate sequence tokenIndex <;> rfl
    rw [locate_image h,hs]
    exact ⟨rfl,h,ha⟩
  | call call =>
    rcases call_cases h call with hm | ⟨sequence,tokens,rfl,ht,hk,he⟩
    · obtain ⟨reply,t,hr,hf,hi⟩ := hm.returns
      have hp : pyStep s (.call call)=(.reply reply,t) := by rw [pyStep,hr]
      rw [hp] at hids ⊢
      obtain ⟨hn,hacc⟩ := effect_image h ha hto hbound hfit hids hf
      obtain ⟨shown,u,hu,rfl,rfl⟩ := hn.returns
      exact ⟨by rw [nativeStep,hu],hi,hacc⟩
    · have hp : pyStep s (.call (.extend sequence tokens))=(.raised,s) := by rw [pyStep,he]
      rw [hp,nativeStep,nativeExtend_unknown hk ht]
      exact ⟨rfl,h,ha.mono (Nat.le_add_right _ _)⟩

/-- A line that rounds beyond `size_t` raises on the native side only. -/
theorem step_diverges (h : PoolInvariant total blockSize policy s) (ha : Accounted bound s)
    (hto : total≤2^32) (hs : blockSize<2^64) {op : ScriptOp} (hbound : bound+asked op<2^64)
    (hfit : ¬OpRounds s op) : (nativeStep (image s) op).1≠(pyStep s op).1 := by
  have hshow : ∀ {call : CacheCall}, Raises (runNative call) (image s) →
      ∀ reply, (nativeStep (image s) (.call call)).1≠.reply reply := by
    rintro call ⟨e,u,hu⟩ reply
    rw [nativeStep,hu]
    cases e <;> simp only [shown,ne_eq,reduceCtorEq,not_false_eq_true]
  have hpy : ∀ {call : CacheCall} {outcome : AdmissionOutcome} {t : KVCacheManager},
      call.run s=.ok (.outcome outcome) t →
        (pyStep s (.call call)).1=.reply (.outcome outcome) := by
    intro call outcome t hr
    rw [pyStep,hr]
  cases op with
  | locate sequence tokenIndex => exact absurd trivial hfit
  | call call =>
    cases call with
    | preempt sequence => exact absurd trivial hfit
    | release sequence => exact absurd trivial hfit
    | extend sequence tokens =>
      rw [OpRounds,Classical.not_imp] at hfit
      obtain ⟨hm,hfit⟩ := hfit
      obtain ⟨table,hk⟩ := Option.isSome_iff_exists.mp (AList.lookup_isSome.mpr hm)
      rw [rounds_of_lookup hk,h.totalBlocks_eq,h.size_eq] at hfit
      have ht := tokens_pos_of_not_rounds h hk hfit
      have hr := nativeReserve_raises h ha hbound hto hs hk ht hfit
      obtain ⟨outcome,t,hrun,_⟩ := (reserve_meets h hk ht).returns
      have hrun' : (CacheCall.extend sequence tokens).run s=.ok (.outcome outcome) t := by
        simp only [CacheCall.run,KVCacheManager.extend,bind,EStateM.bind,hrun]
        rfl
      rw [hpy hrun']
      exact hshow (hr.bind _) _
    | admitSequence sequence tokens =>
      have hi := register_invariant h sequence
      have hk := register_lookup s sequence
      have hreg := register_accounted ha sequence
      have hfit' := (not_congr (rounds_register (s:=s))).mpr hfit
      rw [rounds_of_lookup hk,hi.totalBlocks_eq,hi.size_eq] at hfit'
      have ht := tokens_pos_of_not_rounds hi hk hfit'
      obtain ⟨e,u,hr⟩ := nativeReserve_raises hi hreg hbound hto hs hk ht hfit'
      obtain ⟨outcome,t,hrun,_⟩ := (reserve_meets hi hk ht).returns
      have hrun' : (CacheCall.admitSequence sequence tokens).run s=.ok (.outcome outcome) t := by
        have he := admitSequence_eq sequence ht s
        rw [KVCacheManager.extend,hrun] at he
        simp only [CacheCall.run,bind,EStateM.bind,he]
        rfl
      rw [hpy hrun']
      have hnat : Raises (NativeManager.admitSequence sequence tokens) (image s) :=
        ⟨e,u,by rw [nativeAdmit_eq sequence ht,image_register]; exact hr⟩
      exact hshow (hnat.bind _) _

/-- Every line keeps the invariant of the Python manager. -/
theorem step_invariant (h : PoolInvariant total blockSize policy s) (op : ScriptOp) :
    PoolInvariant total blockSize policy (pyStep s op).2 := by
  cases op with
  | locate sequence tokenIndex =>
    rw [pyStep]
    cases s.locate sequence tokenIndex with
    | error _ => exact h
    | ok _ => exact h
  | call call =>
    rcases call_cases h call with hm | ⟨_,_,rfl,_,_,he⟩
    · obtain ⟨reply,t,hr,_,hi⟩ := hm.returns
      rw [pyStep,hr]
      exact hi
    · rw [pyStep,he]
      exact h

/-- A run whose lines all fit shows the same on both managers, by induction
on the script with the counters accounted for so far. -/
theorem replay_follows (hto : total<2^64) (script : List ScriptOp) :
    ∀ {s : KVCacheManager} {bound : ℕ}, PoolInvariant total blockSize policy s →
      Accounted bound s → bound+askedBy script<2^64 → FitsFrom script s →
      replay nativeStep script (image s)=
        ((replay pyStep script s).1,image (replay pyStep script s).2) := by
  induction script with
  | nil => intro s bound _ _ _ _; rfl
  | cons op rest ih =>
    intro s bound h ha hbound hfit
    obtain ⟨_,hop,hrest⟩ := hfit
    rw [askedBy,List.map_cons,List.sum_cons] at hbound
    have hids : IdsFit (pyStep s op).2 := by
      cases rest with
      | nil => exact hrest
      | cons _ _ => exact hrest.1
    obtain ⟨hn,hi,hacc⟩ := step_follows h ha hto (by omega) hop hids
    have hlater := ih hi hacc (by rw [askedBy]; omega) hrest
    simp only [replay,hn,hlater]

/-- Conversely a run that shows the same on both managers fits, in a pool
whose ids all fit: the first line that does not would raise on the native
side only. -/
theorem fits_of_replay (hto : total≤2^32) (hs : blockSize<2^64) (script : List ScriptOp) :
    ∀ {s : KVCacheManager} {bound : ℕ}, PoolInvariant total blockSize policy s →
      Accounted bound s → bound+askedBy script<2^64 →
      (replay pyStep script s).1=(replay nativeStep script (image s)).1 → FitsFrom script s := by
  induction script with
  | nil => intro s bound h _ _ _; exact idsFit_of_le h.partitioned hto
  | cons op rest ih =>
    intro s bound h ha hbound he
    rw [askedBy,List.map_cons,List.sum_cons] at hbound
    simp only [replay,List.cons.injEq] at he
    by_cases hop : OpRounds s op
    · have hids : IdsFit (pyStep s op).2 := idsFit_of_le (step_invariant h op).partitioned hto
      obtain ⟨hn,hi,hacc⟩ := step_follows h ha (by omega) (by omega) hop hids
      rw [hn] at he
      exact ⟨ha.ids_lt,hop,ih hi hacc (by rw [askedBy]; omega) he.2⟩
    · exact absurd he.1.symm (step_diverges h ha hto hs (by omega) hop)

/-- Fresh managers are images of each other. -/
theorem create_image (hn : 0<total) (hs : 0<blockSize) (policy : PreemptionPolicy) :
    ∃ s, KVCacheManager.create total blockSize policy=.ok s ∧
      NativeManager.create total blockSize policy=.ok (image s) ∧
      PoolInvariant total blockSize policy s ∧ Accounted 0 s := by
  obtain ⟨s,hc,hi,htables,hfree,hp,hr⟩ := create_invariant hn hs policy
  have hpool : (⟨total,blockSize,List.range total,List.replicate total 0⟩ : BlockAllocator)=
      exclusivePool total blockSize (List.range total) := by
    have he := create_eq hn hs
    rw [BlockAllocator.create,if_neg (by omega),if_neg (by omega),Except.ok.injEq] at he
    exact he
  have hs' : s=⟨exclusivePool total blockSize (List.range total),blockSize,policy,∅,[],0,0⟩ := by
    rw [KVCacheManager.create,create_eq hn hs,Except.ok.injEq] at hc
    exact hc.symm
  refine ⟨s,hc,?_,hi,?_⟩
  · rw [NativeManager.create,NativeAllocator.create,if_neg (by omega),if_neg (by omega),hs']
    simp only [image,←hpool,imagePool]
    rfl
  · constructor
    · rw [htables,hr]
      exact Nat.le_refl 0
    · rw [hp,hr]
    · intro sequence table hk
      rw [htables,AList.lookup_empty] at hk
      exact absurd hk (by simp only [reduceCtorEq,not_false_eq_true])
    · intro block hb
      rw [htables] at hb
      exact absurd hb List.not_mem_nil

/-- The two managers agree on every script whose Python run stays within the
native types; in a pool whose ids fit, on no other. -/
theorem agree_of_fits_iff {blockCount : ℕ} {script : List ScriptOp} (hn : 0<blockCount)
    (hn64 : blockCount<2^64) (hs : 0<blockSize) (hs64 : blockSize<2^64)
    (hasked : askedBy script<2^64) :
    (ScriptFits blockCount blockSize policy script → Agree blockCount blockSize policy script) ∧
    (blockCount≤2^32 →
      (Agree blockCount blockSize policy script ↔
        ScriptFits blockCount blockSize policy script)) := by
  obtain ⟨s,hc,hcn,hi,ha⟩ := create_image hn hs policy
  have hsuff : ScriptFits blockCount blockSize policy script →
      Agree blockCount blockSize policy script := by
    intro hfit
    rw [ScriptFits,hc] at hfit
    have hr := replay_follows hn64 script hi ha (by omega) hfit
    rw [Agree,hc,hcn]
    dsimp only
    rw [hr]
    exact ⟨rfl,(observe_image _).symm⟩
  refine ⟨hsuff,fun h32 => ⟨fun hag => ?_,hsuff⟩⟩
  rw [Agree,hc,hcn] at hag
  rw [ScriptFits,hc]
  exact fits_of_replay h32 hs64 script hi ha (by omega) hag.1

/-- A script that evicts, extends and looks up, on which the managers agree. -/
theorem agree_on_eviction :
    Agree 2 2 .newest [.call (.admitSequence 1 3),.call (.admitSequence 2 2),.locate 2 1,
      .call (.extend 1 1),.call (.release 2)] :=
  (agree_of_fits_iff (by decide) (by decide) (by decide) (by decide) (by decide)).1
    (by decide +kernel)

/-- Admitting `2^64-1` tokens: the Python manager refuses them, the native
rounding wraps to no block and the fill raises. -/
theorem wrapped_admission_disagrees :
    askedBy [.call (.admitSequence 1 (2^64-1))]<2^64 ∧
      ¬Agree 4 2 .newest [.call (.admitSequence 1 (2^64-1))] := by
  refine ⟨by decide,fun h => ?_⟩
  exact absurd h.1 (by decide +kernel)

end CudaForge.CacheScripts
