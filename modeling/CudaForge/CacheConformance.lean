import CudaForge.CacheNative
import CudaForge.CachePlacement

/-!
# The native manager follows the Python one

`image` is the native manager with the same contents as a Python one. As
long as rounding a request up to whole blocks stays within `size_t`, every
native call on an image ends in the image of what the Python call ends in,
with the same reply; the first call that leaves that range raises on the
native side only.
-/

namespace CudaForge.CacheConformance

open ExceptionState PythonBuiltins CacheBlocks CacheManager CeilDivision KeyedTables CacheInvariant
open CacheReservation CachePlacement CacheNative
open CacheManager.KVCacheManager (register)

variable {total blockSize bound : ℕ} {policy : PreemptionPolicy} {s t : KVCacheManager}
variable {sequence requester victim : SequenceId} {table : SequenceBlockTable}
variable {needed tokens : ℕ} {evicted : List SequenceId}

/-- A block id that fits its type is itself. -/
theorem word32_of_lt {n : ℕ} (hn : n<2^32) : word32 n=n := Nat.mod_eq_of_lt hn

/-- A word that does not overflow is itself. -/
theorem word64_of_lt {n : ℕ} (hn : n<2^64) : word64 n=n := Nat.mod_eq_of_lt hn

/-- The native allocator with the contents of a Python one; block ids are
truncated to their type. -/
def imagePool (a : BlockAllocator) : NativeAllocator :=
  ⟨a.total,a.blockSize,a.free.map word32,a.references⟩

/-- The native manager with the contents of a Python one; the order of the
dictionary is forgotten. -/
def image (s : KVCacheManager) : NativeManager :=
  ⟨imagePool s.allocator,s.blockSize,s.policy,s.tables.toFinmap,s.admissionOrder,s.preemptions,
    s.recomputedTokens⟩

@[simp] theorem image_lookup (s : KVCacheManager) (sequence : SequenceId) :
    (image s).tables.lookup sequence=s.tables.lookup sequence := Finmap.lookup_toFinmap _ _

theorem image_freeBlocks (s : KVCacheManager) : (image s).freeBlocks=s.freeBlocks :=
  List.length_map _

/-- Both managers know as many sequences. -/
theorem image_activeSequences (s : KVCacheManager) :
    (image s).activeSequences=s.activeSequences := by
  have hk : (Finmap.keys s.tables.toFinmap).val=(s.tables.keys : Multiset SequenceId) :=
    Finmap.keys_val s.tables
  rw [NativeManager.activeSequences,KVCacheManager.activeSequences]
  change (Finmap.keys s.tables.toFinmap).card=_
  rw [Finset.card_def,hk,Multiset.coe_card]
  exact List.length_map _

@[simp] theorem image_tokensHeld (s : KVCacheManager) (sequence : SequenceId) :
    (image s).tokensHeld sequence=s.tokensHeld sequence := by
  rw [NativeManager.tokensHeld,image_lookup]
  rfl

@[simp] theorem image_blocksHeld (s : KVCacheManager) (sequence : SequenceId) :
    (image s).blocksHeld sequence=s.blocksHeld sequence := by
  rw [NativeManager.blocksHeld,image_lookup]
  rfl

/-- Both newest-first walks stop at the same candidate. -/
theorem scanNewest_eq {u : NativeManager}
    (hu : ∀ sequence, u.tables.lookup sequence=s.tables.lookup sequence) (requester : SequenceId)
    (order : List SequenceId) :
    u.scanNewest requester order=order.find? (s.evictable requester) := by
  induction order with
  | nil => rfl
  | cons candidate rest ih =>
    rw [NativeManager.scanNewest,List.find?_cons,ih,hu,KVCacheManager.evictable]
    by_cases he : candidate=requester
    · rw [if_pos he,if_pos he]
    · rw [if_neg he,if_neg he]
      cases s.tables.lookup candidate with
      | none => rfl
      | some table =>
        dsimp only
        cases hb : table.blocks with
        | nil => rw [if_pos rfl]; rfl
        | cons block blocks => rw [if_neg (List.cons_ne_nil _ _)]; rfl

/-- Both largest-first walks keep the same running victim. -/
theorem scanLargest_eq {u : NativeManager}
    (hu : ∀ sequence, u.tables.lookup sequence=s.tables.lookup sequence) (requester : SequenceId)
    (order : List SequenceId) :
    ∀ (best : Option SequenceId) (most : ℕ),
      u.scanLargest requester order best most=s.scanLargest requester order best most := by
  induction order with
  | nil => intro best most; rfl
  | cons candidate rest ih =>
    intro best most
    rw [NativeManager.scanLargest,KVCacheManager.scanLargest,hu]
    by_cases he : candidate=requester
    · rw [if_pos he,if_pos he,ih]
    · rw [if_neg he,if_neg he]
      cases s.tables.lookup candidate with
      | none => exact ih best most
      | some table => simp only [ih]

/-- Managers with one policy, one order and the same tables choose the same
victim. -/
theorem chooseVictim_eq {u : NativeManager}
    (hu : ∀ sequence, u.tables.lookup sequence=s.tables.lookup sequence)
    (hp : u.policy=s.policy) (ho : u.admissionOrder=s.admissionOrder) (requester : SequenceId) :
    u.chooseVictim requester=s.chooseVictim requester := by
  unfold NativeManager.chooseVictim KVCacheManager.chooseVictim
  rw [hp,ho]
  cases s.policy with
  | newest => exact scanNewest_eq hu requester _
  | largest => exact scanLargest_eq hu requester _ none 0

/-- A Python manager with its counters reduced to words. -/
def reduced (s : KVCacheManager) : KVCacheManager :=
  {s with
    preemptions := word64 s.preemptions
    recomputedTokens := word64 s.recomputedTokens}

/-- The native manager with the contents of a Python one whose counters may
exceed a word. -/
def shadow (s : KVCacheManager) : NativeManager := image (reduced s)

@[simp] theorem shadow_lookup (s : KVCacheManager) (sequence : SequenceId) :
    (shadow s).tables.lookup sequence=s.tables.lookup sequence := image_lookup _ _

theorem shadow_freeBlocks (s : KVCacheManager) : (shadow s).freeBlocks=s.freeBlocks :=
  image_freeBlocks _

theorem shadow_activeSequences (s : KVCacheManager) :
    (shadow s).activeSequences=s.activeSequences := image_activeSequences _

theorem shadow_chooseVictim (s : KVCacheManager) (requester : SequenceId) :
    (shadow s).chooseVictim requester=s.chooseVictim requester :=
  chooseVictim_eq (shadow_lookup s) rfl rfl requester

/-- Summing machine words gives the sum while it fits. -/
theorem foldl_addReclaimable (requester : SequenceId)
    (entries : List (Sigma fun _ : SequenceId => SequenceBlockTable)) :
    ∀ d : ℕ, d+((entries.filter (fun e => decide (e.1≠requester))).map
        (fun e => e.2.blocks.length)).sum<2^64 →
      entries.foldl (fun d e => NativeManager.addReclaimable requester d e.1 e.2) d=
        d+((entries.filter (fun e => decide (e.1≠requester))).map
          (fun e => e.2.blocks.length)).sum := by
  induction entries with
  | nil => intro d _; rfl
  | cons e rest ih =>
    intro d hd
    rw [List.foldl_cons,NativeManager.addReclaimable]
    by_cases he : e.1=requester
    · rw [List.filter_cons_of_neg (by simp only [he,ne_eq,not_true,decide_false,
        Bool.false_eq_true,not_false_eq_true])] at hd ⊢
      rw [if_neg (not_not.mpr he)]
      exact ih d hd
    · rw [List.filter_cons_of_pos (by simp only [ne_eq,he,not_false_eq_true,decide_true]),
        List.map_cons,List.sum_cons] at hd ⊢
      rw [if_pos he,word64_of_lt (by omega),ih _ (by omega)]
      omega

/-- Both managers count the same reclaimable blocks. -/
theorem reclaimable_eq (h : Partitioned total blockSize policy s) (ht : total<2^64)
    (hk : s.tables.lookup requester=some table) :
    (shadow s).reclaimableBlocks requester=s.reclaimableBlocks requester := by
  have ha := h.reclaimable_add_own hk
  have hf := foldl_addReclaimable requester s.tables.entries 0 (by
    rw [Nat.zero_add]
    unfold KVCacheManager.reclaimableBlocks at ha
    omega)
  rw [Nat.zero_add] at hf
  exact hf

/-- Tokens held by all sequences together. -/
def heldTokens (tables : Tables) : ℕ :=
  (gather (fun table : SequenceBlockTable => List.replicate table.tokens ()) tables).length

/-- The tokens of one sequence can be split off. -/
theorem heldTokens_split (hk : s.tables.lookup sequence=some table) :
    heldTokens s.tables=table.tokens+heldTokens (s.tables.erase sequence) := by
  have hp := (gather_perm_erase
    (fun table : SequenceBlockTable => List.replicate table.tokens ()) hk).length_eq
  rwa [List.length_append,List.length_replicate] at hp

/-- A written table contributes its own tokens. -/
theorem heldTokens_insert (tables : Tables) (sequence : SequenceId) (table : SequenceBlockTable) :
    heldTokens (tables.insert sequence table)=table.tokens+heldTokens (tables.erase sequence) := by
  rw [heldTokens,gather_insert,List.length_append,List.length_replicate,heldTokens]

/-- An unknown sequence has no tokens to take away. -/
theorem heldTokens_erase_unknown (hm : sequence∉s.tables) :
    heldTokens (s.tables.erase sequence)=heldTokens s.tables := by
  rw [heldTokens,gather_erase_of_unknown _ hm,heldTokens]

/-- The ids of all held blocks are within the native type of block ids. -/
def IdsFit (s : KVCacheManager) : Prop := ∀ block∈heldBlocks s.tables, block<2^32

/-- A pool of no more than `2^32` blocks has no larger id. -/
theorem idsFit_of_le (h : Partitioned total blockSize policy s) (ht : total≤2^32) :
    IdsFit s := by
  intro block hb
  have hm := List.mem_range.mp (h.partition.mem_iff.mp (List.mem_append_right _ hb))
  exact lt_of_lt_of_le hm ht

/-- The tokens asked for so far, at most `bound` of them, are held or were
lost to preemption, every preemption lost at least one of them, no table has
a capacity beyond `size_t`, and no held block an id beyond `BlockId`. -/
structure Accounted (bound : ℕ) (s : KVCacheManager) : Prop where
  tokens_le : s.recomputedTokens+heldTokens s.tables≤bound
  preemptions_le : s.preemptions ≤ s.recomputedTokens
  capacity_lt : ∀ sequence table, s.tables.lookup sequence=some table →
    table.blocks.length*s.blockSize<2^64
  ids_lt : IdsFit s

/-- A table that holds blocks holds tokens. -/
theorem tokens_pos (h : PoolInvariant total blockSize policy s)
    (hk : s.tables.lookup sequence=some table) (hb : table.blocks≠[]) : 0<table.tokens := by
  have hx := (h.exact_tables sequence table hk).blocks_eq
  have hl := List.length_pos_of_ne_nil hb
  by_contra hz
  have hc := (ceilDiv_eq_zero_iff h.size_pos table.tokens).mpr (by omega)
  omega

/-- Emptying a table that holds blocks moves its tokens to the lost ones. -/
theorem emptied_accounted (h : PoolInvariant total blockSize policy s) (ha : Accounted bound s)
    (hk : s.tables.lookup sequence=some table) (hb : table.blocks≠[]) :
    Accounted bound (emptied s sequence table) := by
  have ht := tokens_pos h hk hb
  have hs := heldTokens_split hk
  have hl := ha.tokens_le
  have hp := ha.preemptions_le
  constructor
  · simp only [emptied,SequenceBlockTable.tokenCount,heldTokens_insert,SequenceBlockTable.create]
    omega
  · simp only [emptied,SequenceBlockTable.tokenCount]
    omega
  · intro other found hf
    by_cases he : other=sequence
    · subst he
      rw [emptied_lookup_self,Option.some.injEq] at hf
      subst hf
      simp only [SequenceBlockTable.create,List.length_nil,Nat.zero_mul]
      omega
    · rw [emptied_lookup_ne he] at hf
      exact ha.capacity_lt other found hf
  · intro block hm
    obtain ⟨other,found,hf,hin⟩ := mem_gather.mp hm
    by_cases he : other=sequence
    · subst he
      rw [emptied_lookup_self,Option.some.injEq] at hf
      subst hf
      exact absurd hin List.not_mem_nil
    · rw [emptied_lookup_ne he] at hf
      exact ha.ids_lt block (mem_gather.mpr ⟨other,found,hf,hin⟩)

/-- The accounts survive a run of the eviction loop. -/
theorem evicts_accounted {needed : ℕ} {evicted : List SequenceId}
    (he : Evicts needed requester s evicted t) (h : PoolInvariant total blockSize policy s)
    (ha : Accounted bound s) : Accounted bound t := by
  induction he with
  | enough _ => exact ha
  | stuck _ _ => exact ha
  | evict _ hc hk _ ih =>
    obtain ⟨_,found,hf,hb⟩ := chooseVictim_holds hc
    rw [hk,Option.some.injEq] at hf
    subst hf
    exact ih (emptied_invariant h hk) (emptied_accounted h ha hk hb)

/-- A grant adds its tokens to the held ones. -/
theorem granted_accounted (ha : Accounted bound s) (hk : s.tables.lookup sequence=some table)
    {needed tokens : ℕ} (hf : needed ≤ s.freeBlocks)
    (hc : (table.blocks.length+needed)*s.blockSize<2^64)
    (hids : IdsFit (granted s sequence table needed tokens)) :
    Accounted (bound+tokens) (granted s sequence table needed tokens) := by
  have hs := heldTokens_split hk
  have hl := ha.tokens_le
  constructor
  · simp only [granted,heldTokens_insert]
    omega
  · exact ha.preemptions_le
  · intro other found hfo
    by_cases he : other=sequence
    · subst he
      rw [granted,AList.lookup_insert,Option.some.injEq] at hfo
      subst hfo
      have hn : needed ≤ s.allocator.free.length := hf
      simp only [List.length_append,List.length_take,Nat.min_eq_left hn]
      exact hc
    · rw [granted,AList.lookup_insert_ne he] at hfo
      exact ha.capacity_lt other found hfo
  · exact hids

/-- More tokens may be asked for without being granted. -/
theorem Accounted.mono (ha : Accounted bound s) {larger : ℕ} (hl : bound≤larger) :
    Accounted larger s :=
  ⟨ha.tokens_le.trans hl,ha.preemptions_le,ha.capacity_lt,ha.ids_lt⟩

/-- Registering accounts for nothing new. -/
theorem register_accounted (ha : Accounted bound s) (sequence : SequenceId) :
    Accounted bound (s.register sequence) := by
  unfold register
  by_cases hm : sequence∈s.tables
  · rwa [if_pos hm]
  · rw [if_neg hm]
    constructor
    · simp only [heldTokens_insert,SequenceBlockTable.create,Nat.zero_add,
        heldTokens_erase_unknown hm]
      exact ha.tokens_le
    · exact ha.preemptions_le
    · intro other found hf
      by_cases he : other=sequence
      · subst he
        rw [AList.lookup_insert,Option.some.injEq] at hf
        subst hf
        simp only [SequenceBlockTable.create,List.length_nil,Nat.zero_mul]
        omega
      · rw [AList.lookup_insert_ne he] at hf
        exact ha.capacity_lt other found hf
    · intro block hb
      simp only [heldBlocks,gather_insert,SequenceBlockTable.create,List.nil_append,
        gather_erase_of_unknown _ hm] at hb
      exact ha.ids_lt block hb

/-- Forgetting a sequence accounts for nothing new. -/
theorem forgotten_accounted (ha : Accounted bound s) (hk : s.tables.lookup sequence=some table) :
    Accounted bound (forgotten s sequence table) := by
  have hs := heldTokens_split hk
  have hl := ha.tokens_le
  constructor
  · simp only [forgotten]
    omega
  · exact ha.preemptions_le
  · intro other found hf
    by_cases he : other=sequence
    · subst he
      rw [forgotten,AList.lookup_erase] at hf
      exact absurd hf (by simp only [reduceCtorEq,not_false_eq_true])
    · rw [forgotten,AList.lookup_erase_ne he] at hf
      exact ha.capacity_lt other found hf
  · intro block hm
    have hp := gather_perm_erase SequenceBlockTable.blocks hk
    exact ha.ids_lt block (hp.mem_iff.mpr (List.mem_append_right _ hm))

/-- The native pool releases a held block as the Python one does. -/
theorem release_imagePool (blockSize : ℕ) {block : BlockId} {free : List BlockId}
    (hb : block<total) (hf : block∉free) (hw : block<2^32) :
    (imagePool (exclusivePool total blockSize free)).release block=
      .ok (imagePool (exclusivePool total blockSize (block::free))) := by
  have hg := exclusiveCounts_get hb free
  rw [if_neg hf] at hg
  simp only [imagePool,exclusivePool,NativeAllocator.release,hg,exclusiveCounts_push,if_true,
    List.map_cons,word32_of_lt hw]

/-- The native pool hands out the same block. -/
theorem allocate_imagePool (total blockSize : ℕ) {block : BlockId} {rest : List BlockId}
    (hb : block∉rest) (hw : block<2^32) :
    (imagePool (exclusivePool total blockSize (block::rest))).allocate=
      (some block,imagePool (exclusivePool total blockSize rest)) := by
  simp only [imagePool,exclusivePool,NativeAllocator.allocate,List.map_cons,word32_of_lt hw,
    exclusiveCounts_pop hb]

/-- Releasing blocks pushes them one by one on the native stack. -/
theorem nativeReleaseBlocks_meets (blocks : List BlockId) :
    ∀ {u : NativeManager} {free : List BlockId},
      u.allocator=imagePool (exclusivePool total blockSize free) → (blocks++free).Nodup →
      (∀ block∈blocks, block<total ∧ block<2^32) →
      Meets (NativeManager.releaseBlocks blocks) u (fun _ v =>
        v={u with allocator :=
          imagePool (exclusivePool total blockSize (blocks.reverse++free))}) := by
  induction blocks with
  | nil =>
    intro u free hp _ _
    simp only [NativeManager.releaseBlocks,meets_pure,List.reverse_nil,List.nil_append,←hp]
  | cons block rest ih =>
    intro u free hp hn hb
    rw [List.cons_append,List.nodup_cons,List.mem_append,not_or] at hn
    have hm := hb block List.mem_cons_self
    have hr := release_imagePool blockSize hm.1 hn.1.2 hm.2
    have hn' : (rest++(block::free)).Nodup := by
      rw [List.nodup_middle,List.nodup_cons,List.mem_append,not_or]
      exact hn
    have hi := ih (u:={u with
        allocator := imagePool (exclusivePool total blockSize (block::free))})
      rfl hn' (fun b hm => hb b (List.mem_cons_of_mem _ hm))
    simp only [NativeManager.releaseBlocks,meets_bind,meets_get,hp,hr,meets_raising_ok,meets_set]
    simpa only [List.reverse_cons,List.append_assoc,List.singleton_append] using hi

/-- An emptied table takes its ids with it. -/
theorem emptied_idsFit (hids : IdsFit s) : IdsFit (emptied s sequence table) := by
  intro block hm
  obtain ⟨other,found,hf,hin⟩ := mem_gather.mp hm
  by_cases he : other=sequence
  · subst he
    rw [emptied_lookup_self,Option.some.injEq] at hf
    subst hf
    exact absurd hin List.not_mem_nil
  · rw [emptied_lookup_ne he] at hf
    exact hids block (mem_gather.mpr ⟨other,found,hf,hin⟩)

/-- The blocks of a table can be returned to the native pool. -/
theorem returnable_ids (h : Partitioned total blockSize policy s) (hids : IdsFit s)
    (hk : s.tables.lookup sequence=some table) :
    ∀ block∈table.blocks, block<total ∧ block<2^32 := fun block hm =>
  ⟨(h.returnable hk).2 block hm,hids block (mem_gather.mpr ⟨sequence,table,hk,hm⟩)⟩

/-- Both managers empty a table alike. -/
theorem reclaim_shadow (h : Partitioned total blockSize policy s) (hids : IdsFit s)
    (hk : s.tables.lookup sequence=some table) :
    Meets (NativeManager.reclaim sequence table) (shadow s)
      (fun _ u => u=shadow (emptied s sequence table)) := by
  obtain ⟨ht,hs⟩ := h.pool_fields
  have hi : (shadow s).allocator=imagePool (exclusivePool total blockSize s.allocator.free) :=
    congrArg imagePool h.pool_eq
  have hr : word64 (word64 s.recomputedTokens+table.tokens)=
      word64 (s.recomputedTokens+table.tokens) := Nat.mod_add_mod _ _ _
  have hp : word64 (word64 s.preemptions+1)=word64 (s.preemptions+1) := Nat.mod_add_mod _ _ _
  simp only [NativeManager.reclaim,meets_bind,meets_modify]
  refine (nativeReleaseBlocks_meets table.blocks hi (h.returnable hk).1
    (returnable_ids h hids hk)).mono ?_
  rintro _ u rfl
  simp only [shadow,reduced,image,emptied,ht,hs,SequenceBlockTable.tokenCount,
    Finmap.insert_toFinmap,hr,hp]

/-- Both managers forget a known sequence alike. -/
theorem release_shadow (h : Partitioned total blockSize policy s) (hids : IdsFit s)
    (hk : s.tables.lookup sequence=some table) :
    Meets (NativeManager.release sequence) (shadow s)
      (fun _ u => u=shadow (forgotten s sequence table)) := by
  obtain ⟨ht,hs⟩ := h.pool_fields
  have hi : (shadow s).allocator=imagePool (exclusivePool total blockSize s.allocator.free) :=
    congrArg imagePool h.pool_eq
  simp only [NativeManager.release,meets_bind,meets_get,shadow_lookup,hk,meets_modify]
  refine (nativeReleaseBlocks_meets table.blocks hi (h.returnable hk).1
    (returnable_ids h hids hk)).mono ?_
  rintro _ u rfl
  simp only [shadow,reduced,image,forgotten,ht,hs,Finmap.erase_toFinmap]

/-- Both eviction loops choose the same victims in the same order. -/
theorem evictLoop_shadow (he : Evicts needed requester s evicted t)
    (h : Partitioned total blockSize policy s) (hids : IdsFit s) :
    ∀ turns, evicted.length≤turns →
      Meets (NativeManager.evictLoop needed requester turns) (shadow s)
        (fun chosen u => chosen=evicted ∧ u=shadow t) := by
  induction he with
  | @enough s hf =>
    intro turns _
    cases turns with
    | zero => exact ⟨rfl,rfl⟩
    | succ turns =>
      simp only [NativeManager.evictLoop,meets_bind,meets_get]
      rw [if_neg (by rw [shadow_freeBlocks]; omega)]
      exact ⟨rfl,rfl⟩
  | @stuck s hf hc =>
    intro turns _
    cases turns with
    | zero => exact ⟨rfl,rfl⟩
    | succ turns =>
      simp only [NativeManager.evictLoop,meets_bind,meets_get,shadow_chooseVictim,hc]
      rw [if_pos (by rwa [shadow_freeBlocks])]
      exact ⟨rfl,rfl⟩
  | @evict s t victim table later hf hc hk _ ih =>
    intro turns hl
    cases turns with
    | zero => exact absurd hl (by simp only [List.length_cons]; omega)
    | succ turns =>
      simp only [NativeManager.evictLoop,meets_bind,meets_get,shadow_chooseVictim,hc,
        shadow_lookup,hk]
      rw [if_pos (by rwa [shadow_freeBlocks])]
      simp only [meets_bind]
      refine (reclaim_shadow h hids hk).mono ?_
      rintro _ u rfl
      have hi := ih (emptied_partitioned h hk) (emptied_idsFit hids) turns
        (by simp only [List.length_cons] at hl; omega)
      refine hi.mono ?_
      rintro chosen u ⟨rfl,rfl⟩
      exact ⟨rfl,rfl⟩

/-- The loop's bound covers every run of it. -/
theorem evicted_le (he : Evicts needed requester s evicted t) :
    evicted.length ≤ s.tables.entries.length := he.length_le.trans (holders_le s.tables)

/-- Writing what is already there changes nothing. -/
theorem insert_lookup_self {tables : NativeTables} (hk : tables.lookup sequence=some table) :
    tables.insert sequence table=tables := by
  apply Finmap.ext_lookup
  intro other
  by_cases he : other=sequence
  · subst he
    rw [Finmap.lookup_insert,hk]
  · rw [Finmap.lookup_insert_of_ne _ he]

/-- Both managers append the same blocks. -/
theorem nativeAppendBlocks_meets (sequence : SequenceId) (needed : ℕ) :
    ∀ {u : NativeManager} {free : List BlockId} (table : SequenceBlockTable),
      u.allocator=imagePool (exclusivePool total blockSize free) →
      u.tables.lookup sequence=some table → free.Nodup →
      needed≤free.length → (∀ block∈free.take needed, block<2^32) →
      Meets (NativeManager.appendBlocks sequence needed table) u (fun grown v =>
        grown={table with blocks := table.blocks++free.take needed} ∧
        v={u with
          allocator := imagePool (exclusivePool total blockSize (free.drop needed))
          tables := u.tables.insert sequence grown}) := by
  induction needed with
  | zero =>
    intro u free table hp hk _ _ _
    simp only [NativeManager.appendBlocks,meets_pure,List.take_zero,List.append_nil,
      List.drop_zero,←hp,insert_lookup_self hk,and_self]
  | succ needed ih =>
    intro u free table hp hk hn hl hids
    cases free with
    | nil => exact absurd hl (by simp only [List.length_nil]; omega)
    | cons block rest =>
      obtain ⟨hb,hr⟩ := List.nodup_cons.mp hn
      rw [List.take_succ_cons] at hids
      have ha := allocate_imagePool total blockSize hb
        (hids block List.mem_cons_self)
      rw [←hp] at ha
      simp only [NativeManager.appendBlocks,meets_bind,meets_get,ha,meets_set]
      have hi := ih (u:={u with
          allocator := imagePool (exclusivePool total blockSize rest)
          tables := u.tables.insert sequence (table.appendBlock block)})
        (table.appendBlock block) rfl (Finmap.lookup_insert _) hr
        (by simp only [List.length_cons] at hl; omega)
        (fun b hm => hids b (List.mem_cons_of_mem _ hm))
      refine hi.mono ?_
      rintro grown v ⟨hg,hv⟩
      constructor
      · rw [hg]
        simp only [SequenceBlockTable.appendBlock,List.append_assoc,List.singleton_append,
          List.take_succ_cons]
      · rw [hv]
        simp only [List.drop_succ_cons,Finmap.insert_insert]

/-- The blocks a grant takes are held afterwards. -/
theorem taken_lt (hids : IdsFit (granted s sequence table needed tokens)) :
    ∀ block∈s.allocator.free.take needed, block<2^32 := by
  intro block hm
  refine hids block (mem_gather.mpr ⟨sequence,_,AList.lookup_insert _,?_⟩)
  exact List.mem_append_right _ hm

/-- A pool of no more than `2^32` blocks offers no larger id. -/
theorem taken_lt_of_le (h : Partitioned total blockSize policy s) (ht : total≤2^32) :
    ∀ block∈s.allocator.free.take needed, block<2^32 := by
  intro block hm
  have hf := List.mem_append_left (heldBlocks s.tables) (List.mem_of_mem_take hm)
  have hr := List.mem_range.mp (h.partition.mem_iff.mp hf)
  exact lt_of_lt_of_le hr ht

/-- What both managers do once the blocks are free. -/
def nativeFill (sequence : SequenceId) (table : SequenceBlockTable) (needed tokens : ℕ)
    (outcome : AdmissionOutcome) : NativeM AdmissionOutcome := do
  let grown ← NativeManager.appendBlocks sequence needed table
  let filled ← raising (nativeAddTokens grown tokens)
  modify (fun s : NativeManager => {s with tables := s.tables.insert sequence filled})
  pure outcome

/-- In machine words, the tokens exceed the capacity of the table once it has
been given `needed` blocks. -/
def Overflows (blockSize : ℕ) (table : SequenceBlockTable) (needed tokens : ℕ) : Prop :=
  word64 ((table.blocks.length+needed)*blockSize)<word64 (table.tokens+tokens)

instance (blockSize : ℕ) (table : SequenceBlockTable) (needed tokens : ℕ) :
    Decidable (Overflows blockSize table needed tokens) :=
  inferInstanceAs (Decidable (_<_))

/-- The manager after a native grant; the sum of the tokens is a word. -/
def wordGranted (s : KVCacheManager) (sequence : SequenceId) (table : SequenceBlockTable)
    (needed tokens : ℕ) : KVCacheManager :=
  granted s sequence {table with tokens := word64 (table.tokens+tokens)} needed 0

/-- The exception of a table that its tokens overflow. -/
def overflowError : NativeError :=
  .outOfRange "SequenceBlockTable::add_tokens beyond the allocated blocks; allocate first"

/-- With the blocks at hand, the native manager records the tokens unless they
overflow the table; then it raises and the blocks stay with the table. -/
theorem nativeFill_ends (h : Partitioned total blockSize policy s)
    (hk : s.tables.lookup sequence=some table) (hf : needed ≤ s.freeBlocks)
    (hids : ∀ block∈s.allocator.free.take needed, block<2^32) (tokens : ℕ)
    (outcome : AdmissionOutcome) :
    nativeFill sequence table needed tokens outcome (shadow s)=
      if Overflows blockSize table needed tokens then
        .error overflowError (shadow (granted s sequence table needed 0))
      else .ok outcome (shadow (wordGranted s sequence table needed tokens)) := by
  obtain ⟨ht,hs⟩ := h.pool_fields
  have hi : (shadow s).allocator=imagePool (exclusivePool total blockSize s.allocator.free) :=
    congrArg imagePool h.pool_eq
  have hl : needed ≤ s.allocator.free.length := hf
  have hz := (h.own_tables sequence table hk).2
  obtain ⟨grown,u,hx,rfl,rfl⟩ := (nativeAppendBlocks_meets sequence needed table hi
    ((shadow_lookup s sequence).trans hk) h.free_nodup hf hids).returns
  have ha : nativeAddTokens {table with blocks := table.blocks++s.allocator.free.take needed}
      tokens=if Overflows blockSize table needed tokens then .error overflowError else .ok
        {table with
          blocks := table.blocks++s.allocator.free.take needed
          tokens := word64 (table.tokens+tokens)} := by
    rw [nativeAddTokens,nativeCapacity]
    simp only [List.length_append,List.length_take,Nat.min_eq_left hl,hz]
    rfl
  rw [nativeFill,bind_ok hx,ha]
  by_cases ho : Overflows blockSize table needed tokens
  · rw [if_pos ho,if_pos ho,bind_error (x:=raising (.error overflowError)) rfl]
    simp only [shadow,reduced,image,granted,ht,hs,Finmap.insert_toFinmap,Nat.add_zero]
  · rw [if_neg ho,if_neg ho,bind_ok (x:=raising (.ok _)) rfl,bind_ok (x:=modify _) rfl]
    simp only [shadow,reduced,image,wordGranted,granted,ht,hs,Finmap.insert_toFinmap,Nat.add_zero,
      pure,EStateM.pure,AList.insert_insert]

/-- Rounding a sequence's tokens up to whole blocks stays within `size_t`:
they fit in the blocks held, or neither the rounding sum nor, when the pool
is large enough, the capacity that covers them reaches `2^64`. -/
def RoundsWithin (total blockSize held own tokens : ℕ) : Prop :=
  held+tokens≤own*blockSize ∨
    (held+tokens-own*blockSize+blockSize-1<2^64 ∧
      ((held+tokens) ⌈/⌉ blockSize≤total → ((held+tokens) ⌈/⌉ blockSize)*blockSize<2^64))

instance (total blockSize held own tokens : ℕ) :
    Decidable (RoundsWithin total blockSize held own tokens) :=
  inferInstanceAs (Decidable (_ ∨ (_ ∧ (_ → _))))

/-- The capacity both sides compute for a table of the manager. -/
theorem capacity_image (h : PoolInvariant total blockSize policy s) (ha : Accounted bound s)
    (hk : s.tables.lookup sequence=some table) :
    table.capacity=table.blocks.length*blockSize ∧
      nativeCapacity table=table.blocks.length*blockSize := by
  have hc := ha.capacity_lt sequence table hk
  have hz := (h.exact_tables sequence table hk).size_eq
  rw [h.size_eq] at hc
  rw [SequenceBlockTable.capacity,nativeCapacity,hz,word64_of_lt hc]
  exact ⟨rfl,rfl⟩

/-- Both managers round a request up to the same number of blocks while the
rounding sum is a `size_t`. -/
theorem additional_image (h : PoolInvariant total blockSize policy s) (ha : Accounted bound s)
    (hk : s.tables.lookup sequence=some table) (hw : table.tokens+tokens<2^64)
    (hr : table.tokens+tokens≤table.blocks.length*blockSize ∨
      table.tokens+tokens-table.blocks.length*blockSize+blockSize-1<2^64) :
    (image s).additionalBlocksFor sequence tokens=s.additionalBlocksFor sequence tokens := by
  obtain ⟨hp,hn⟩ := capacity_image h ha hk
  rw [NativeManager.additionalBlocksFor,KVCacheManager.additionalBlocksFor,image_lookup,hk]
  dsimp only [SequenceBlockTable.tokenCount]
  rw [hp,hn,word64_of_lt hw]
  by_cases hc : table.tokens+tokens≤table.blocks.length*blockSize
  · rw [if_pos hc,if_pos hc]
  · rw [if_neg hc,if_neg hc]
    have hlt := hr.resolve_left hc
    change word64 (table.tokens+tokens-table.blocks.length*blockSize+s.blockSize-1)/s.blockSize=_
    rw [h.size_eq,word64_of_lt hlt,pyCeilDiv_eq h.size_pos,Nat.ceilDiv_eq_add_pred_div]

/-- Where the rounding sum wraps, the native manager asks for no block. -/
theorem additional_wraps (h : PoolInvariant total blockSize policy s) (ha : Accounted bound s)
    (hk : s.tables.lookup sequence=some table) (hw : table.tokens+tokens<2^64)
    (hc : table.blocks.length*blockSize<table.tokens+tokens)
    (hr : 2^64≤table.tokens+tokens-table.blocks.length*blockSize+blockSize-1) :
    (image s).additionalBlocksFor sequence tokens=0 := by
  obtain ⟨_,hn⟩ := capacity_image h ha hk
  rw [NativeManager.additionalBlocksFor,image_lookup,hk]
  dsimp only
  rw [hn,word64_of_lt hw,if_neg (by omega)]
  change word64 (table.tokens+tokens-table.blocks.length*blockSize+s.blockSize-1)/s.blockSize=0
  rw [h.size_eq]
  apply Nat.div_eq_of_lt
  unfold word64
  omega

/-- The blocks that eviction could make available. -/
theorem offers_eq (h : Partitioned total blockSize policy s) (ht : total<2^64)
    (hk : s.tables.lookup sequence=some table) :
    word64 ((shadow s).freeBlocks+(shadow s).reclaimableBlocks sequence)=
      s.freeBlocks+s.reclaimableBlocks sequence := by
  have hr := h.reclaimable_add_own hk
  rw [shadow_freeBlocks,reclaimable_eq h ht hk]
  exact word64_of_lt (by omega)

/-- A demand out of reach makes neither manager evict. -/
theorem makeRoom_refused (h : Partitioned total blockSize policy s) (ht : total<2^64)
    (hk : s.tables.lookup sequence=some table) (hn : total<table.blocks.length+needed) :
    Meets (NativeManager.makeRoom needed sequence) (shadow s)
      (fun outcome u => outcome=⟨.insufficientCache,[]⟩ ∧ u=shadow s) := by
  have hr := h.reclaimable_add_own hk
  simp only [NativeManager.makeRoom,NativeManager.evictUntil,meets_bind,meets_get]
  rw [if_pos (by rw [shadow_freeBlocks]; omega)]
  simp only [meets_bind,meets_get]
  rw [offers_eq h ht hk,if_pos (by omega)]
  simp only [meets_pure]
  rw [if_pos (by rw [shadow_freeBlocks]; omega)]
  exact ⟨rfl,rfl⟩

/-- Both managers make room by the same evictions. -/
theorem makeRoom_shadow (h : Partitioned total blockSize policy s) (hids : IdsFit s)
    (hto : total<2^64) (hk : s.tables.lookup sequence=some table)
    (hn : table.blocks.length+needed≤total) {outcome : AdmissionOutcome}
    (hm : MakesRoom needed sequence s outcome t) :
    Meets (NativeManager.makeRoom needed sequence) (shadow s)
      (fun result u => result=outcome ∧ u=shadow t) := by
  have hr := h.reclaimable_add_own hk
  simp only [NativeManager.makeRoom,NativeManager.evictUntil,meets_bind,meets_get]
  cases hm with
  | fits hf =>
    rw [if_neg (by rw [shadow_freeBlocks]; omega)]
    exact ⟨rfl,rfl⟩
  | @displaced evicted _ hf he hfree =>
    have hl : evicted.length≤(shadow s).tables.keys.card := by
      have hc := shadow_activeSequences s
      rw [NativeManager.activeSequences,KVCacheManager.activeSequences] at hc
      rw [hc]
      exact evicted_le he
    rw [if_pos (by rwa [shadow_freeBlocks])]
    simp only [meets_bind,meets_get]
    rw [offers_eq h hto hk,if_neg (by omega)]
    refine (evictLoop_shadow he h hids _ hl).mono ?_
    rintro chosen u ⟨rfl,rfl⟩
    rw [if_neg (by rw [shadow_freeBlocks]; omega)]
    exact ⟨rfl,rfl⟩

/-- The native reservation, once the table is found and the need is known. -/
theorem nativeReserve_eq (hk : s.tables.lookup sequence=some table) (ht : 0<tokens)
    (hn : (shadow s).additionalBlocksFor sequence tokens=needed) :
    NativeManager.reserve sequence tokens false (shadow s)=
      (if s.allocator.total<needed then pure ⟨.insufficientCache,[]⟩
      else do
        let outcome ← NativeManager.makeRoom needed sequence
        if outcome.ok then nativeFill sequence table needed tokens outcome
        else pure outcome : NativeM AdmissionOutcome) (shadow s) := by
  unfold NativeManager.reserve
  rw [if_neg (Nat.pos_iff_ne_zero.mp ht)]
  simp only [ExceptionState.bind_modify,ExceptionState.bind_get,Bool.false_eq_true,if_false,
    shadow_lookup,hk,hn]
  rfl

/-- A native reservation that the pool cannot meet is refused and changes
nothing. -/
theorem nativeReserve_refused (h : Partitioned total blockSize policy s) (hto : total<2^64)
    (hk : s.tables.lookup sequence=some table) (ht : 0<tokens)
    (hadd : (shadow s).additionalBlocksFor sequence tokens=needed)
    (hn : total<table.blocks.length+needed) :
    NativeManager.reserve sequence tokens false (shadow s)=
      .ok ⟨.insufficientCache,[]⟩ (shadow s) := by
  rw [nativeReserve_eq hk ht hadd]
  by_cases hbig : s.allocator.total<needed
  · rw [if_pos hbig]
    rfl
  · obtain ⟨outcome,u,hx,rfl,rfl⟩ := (makeRoom_refused h hto hk hn).returns
    rw [if_neg hbig,bind_ok hx]
    rfl

/-- A native reservation that the pool can meet makes room, and records the
tokens unless they overflow the table. -/
theorem nativeReserve_made (h : Partitioned total blockSize policy s) (hids : IdsFit s)
    (hto : total<2^64) (hk : s.tables.lookup sequence=some table) (ht : 0<tokens)
    (hadd : (shadow s).additionalBlocksFor sequence tokens=needed)
    (hn : table.blocks.length+needed≤total) {outcome : AdmissionOutcome}
    (hm : MakesRoom needed sequence s outcome t)
    (htaken : ∀ block∈t.allocator.free.take needed, block<2^32) :
    NativeManager.reserve sequence tokens false (shadow s)=
      if Overflows blockSize table needed tokens then
        .error overflowError (shadow (granted t sequence table needed 0))
      else .ok outcome (shadow (wordGranted t sequence table needed tokens)) := by
  have htot : s.allocator.total=total := h.totalBlocks_eq
  obtain ⟨hp,hf,hkt,hok,_⟩ := hm.facts h
  obtain ⟨result,u,hx,rfl,rfl⟩ := (makeRoom_shadow h hids hto hk hn hm).returns
  rw [nativeReserve_eq hk ht hadd,if_neg (by omega),bind_ok hx,if_pos hok]
  exact nativeFill_ends hp (hkt.trans hk) hf htaken tokens result

/-- Counters that fit their words are kept as they are. -/
theorem shadow_eq_image (ha : Accounted bound s) (hb : bound<2^64) : shadow s=image s := by
  have hl := ha.tokens_le
  have hp := ha.preemptions_le
  rw [shadow,reduced,word64_of_lt (show s.recomputedTokens<2^64 by omega),
    word64_of_lt (show s.preemptions<2^64 by omega)]

/-- A reservation that returns found room, or was out of reach. -/
theorem reserves_room (h : PoolInvariant total blockSize policy s)
    {outcome : AdmissionOutcome} (hr : Reserves sequence tokens s outcome t) :
    ∃ table, s.tables.lookup sequence=some table ∧
      ((total<table.blocks.length+s.additionalBlocksFor sequence tokens ∧
          outcome=⟨.insufficientCache,[]⟩ ∧ t=s) ∨
        (table.blocks.length+s.additionalBlocksFor sequence tokens≤total ∧ ∃ mid,
          MakesRoom (s.additionalBlocksFor sequence tokens) sequence s outcome mid ∧
          t=granted mid sequence table (s.additionalBlocksFor sequence tokens) tokens)) := by
  have hto := h.totalBlocks_eq
  cases hr with
  | @refused table hk hn => exact ⟨table,hk,Or.inl ⟨hto ▸ hn,rfl,rfl⟩⟩
  | @fits table hk hf =>
    have ha := h.reclaimable_add_own hk
    exact ⟨table,hk,Or.inr ⟨by omega,s,.fits hf,rfl⟩⟩
  | @displaced table evicted mid hk hf he hfree =>
    have ha := (he.invariant h).reclaimable_add_own (he.spares.2.trans hk)
    exact ⟨table,hk,Or.inr ⟨by omega,mid,.displaced hf he hfree,rfl⟩⟩

/-- Within `size_t` a native reservation ends as the Python one does. -/
theorem nativeReserve_follows (h : PoolInvariant total blockSize policy s)
    (ha : Accounted bound s) (hbound : bound+tokens<2^64) (hto : total<2^64)
    (hk : s.tables.lookup sequence=some table) (ht : 0<tokens)
    (hr : RoundsWithin total blockSize table.tokens table.blocks.length tokens)
    {outcome : AdmissionOutcome} (hres : Reserves sequence tokens s outcome t)
    (hids : IdsFit t) (hacc : Accounted (bound+tokens) t) :
    NativeManager.reserve sequence tokens false (image s)=.ok outcome (image t) := by
  have hs := heldTokens_split hk
  have hl := ha.tokens_le
  have hw : table.tokens+tokens<2^64 := by omega
  have hadd := additional_image h ha hk hw (hr.imp id And.left)
  have hx := additional_exact h hk tokens
  rw [←shadow_eq_image ha (by omega),←shadow_eq_image hacc hbound]
  rw [←shadow_eq_image ha (by omega)] at hadd
  obtain ⟨own,hk',hroom⟩ := reserves_room h hres
  rw [hk,Option.some.injEq] at hk'
  subst hk'
  rcases hroom with ⟨hn,rfl,rfl⟩ | ⟨hn,mid,hm,rfl⟩
  · exact nativeReserve_refused h.partitioned hto hk ht hadd hn
  · have hcap : (table.blocks.length+s.additionalBlocksFor sequence tokens)*blockSize<2^64 := by
      rw [hx] at hn ⊢
      rcases hr with hc | ⟨_,hc⟩
      · -- the tokens fit in the blocks held, so the cover is those blocks
        have hown := ha.capacity_lt sequence table hk
        rw [h.size_eq] at hown
        have hb := (ceilDiv_le_iff h.size_pos _ _).mpr hc
        exact (Nat.mul_le_mul_right _ hb).trans_lt hown
      · exact hc hn
    have hcover := le_ceilDiv_mul h.size_pos (table.tokens+tokens)
    have hover : ¬Overflows blockSize table (s.additionalBlocksFor sequence tokens) tokens := by
      rw [Overflows,word64_of_lt hcap,word64_of_lt hw,hx]
      omega
    rw [nativeReserve_made h.partitioned ha.ids_lt hto hk ht hadd hn hm (taken_lt hids),
      if_neg hover,wordGranted,word64_of_lt hw]
    rfl

/-- Beyond `size_t` a native reservation raises, which the Python one never
does. -/
theorem nativeReserve_raises (h : PoolInvariant total blockSize policy s)
    (ha : Accounted bound s) (hbound : bound+tokens<2^64) (hto : total≤2^32)
    (hs64 : blockSize<2^64) (hk : s.tables.lookup sequence=some table) (ht : 0<tokens)
    (hr : ¬RoundsWithin total blockSize table.tokens table.blocks.length tokens) :
    Raises (NativeManager.reserve sequence tokens false) (image s) := by
  have hs := heldTokens_split hk
  have hl := ha.tokens_le
  have hw : table.tokens+tokens<2^64 := by omega
  have hown := h.reclaimable_add_own hk
  have hword : ∀ {needed : ℕ}, (image s).additionalBlocksFor sequence tokens=needed →
      table.blocks.length+needed≤total → Overflows blockSize table needed tokens →
      Raises (NativeManager.reserve sequence tokens false) (image s) := by
    intro needed hadd hn hover
    rw [←shadow_eq_image ha (by omega)] at hadd ⊢
    obtain ⟨outcome,mid,hm⟩ := exists_makesRoom h.partitioned hk hn
    have hx := nativeReserve_made h.partitioned ha.ids_lt (by omega) hk ht hadd hn hm
      (taken_lt_of_le (hm.facts h.partitioned).1 hto)
    rw [if_pos hover] at hx
    exact ⟨_,_,hx⟩
  rw [RoundsWithin,not_or,not_and_or] at hr
  obtain ⟨hc,hr⟩ := hr
  by_cases hsum : table.tokens+tokens-table.blocks.length*blockSize+blockSize-1<2^64
  · have hfar := hr.resolve_left (fun hn => hn hsum)
    rw [Classical.not_imp] at hfar
    obtain ⟨hle,hcover⟩ := hfar
    have hx := additional_exact h hk tokens
    -- the covering capacity exceeds the tokens by less than a block, so it wraps below them
    have hu := ceilDiv_mul_lt h.size_pos (table.tokens+tokens)
    refine hword (additional_image h ha hk hw (Or.inr hsum)) (by omega) ?_
    rw [Overflows,hx,word64_of_lt hw]
    unfold word64
    omega
  · have hcap := ha.capacity_lt sequence table hk
    rw [h.size_eq] at hcap
    refine hword (additional_wraps h ha hk hw (by omega) (by omega)) (by omega) ?_
    rw [Overflows,Nat.add_zero,word64_of_lt hcap,word64_of_lt hw]
    omega

end CudaForge.CacheConformance
