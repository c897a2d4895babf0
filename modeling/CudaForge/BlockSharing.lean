import CudaForge.CacheNative
import CudaForge.TransitionRuns

/-!
# Sharing the blocks of the native pool

Every call on the native block pool, in the order in which the source checks
and assigns: it checks first, so a call that throws has assigned nothing. The
free vector reserves its room on construction, so putting a block back never
reallocates it. Over every run of calls, erroneous ones included, the free
list is the blocks without a reference, and each count is what the calls
since the block was last handed out add up to.
-/

namespace CudaForge.BlockSharing

open ExceptionState CacheBlocks CacheNative TransitionRuns

/-- A call on a block pool. -/
inductive PoolCall where
  /-- Take a free block. -/
  | allocate
  /-- Share a block. -/
  | addReference (block : BlockId)
  /-- Drop a reference to a block. -/
  | release (block : BlockId)
  /-- Ask for the count of a block. -/
  | referenceCount (block : BlockId)
  /-- Ask whether a block has a single holder. -/
  | isWritable (block : BlockId)
  deriving DecidableEq

/-- The block a call names. -/
def PoolCall.named : PoolCall → Option BlockId
  | .allocate => none
  | .addReference block => some block
  | .release block => some block
  | .referenceCount block => some block
  | .isWritable block => some block

/-- What a call hands back. -/
inductive Reply where
  /-- The block handed out, if any was free. -/
  | taken (block : Option BlockId)
  /-- A reference count. -/
  | counted (count : ℕ)
  /-- Whether the block may be written to. -/
  | writable (flag : Bool)
  /-- Nothing. -/
  | done
  deriving DecidableEq

/-- A call on the native pool. -/
abbrev PoolM := EStateM NativeError NativeAllocator

/-- Take the block at the back of the free list, then set its count. -/
def nativeAllocate : PoolM (Option BlockId) := do
  let s ← get
  match s.freeList with
  | [] => pure none
  | block::rest => do
    modify (fun s => {s with freeList := rest})
    modify (fun s => {s with referenceCounts := s.referenceCounts.set block 1})
    pure (some block)

/-- Share a block that somebody holds; the count is 32 bits wide. -/
def nativeAddReference (block : BlockId) : PoolM Unit := do
  let s ← get
  match s.referenceCounts[block]? with
  | none => throw (.outOfRange "BlockAllocator::add_reference on an unknown block")
  | some 0 => throw (.invalidArgument "BlockAllocator::add_reference on a free block")
  | some (count+1) =>
    modify (fun s => {s with
      referenceCounts := s.referenceCounts.set block (word32 (count+1+1))})

/-- Drop a reference, then put the block back when it was the last one. -/
def nativeRelease (block : BlockId) : PoolM Unit := do
  let s ← get
  match s.referenceCounts[block]? with
  | none => throw (.outOfRange "BlockAllocator::release on an unknown block")
  | some 0 => throw (.invalidArgument "BlockAllocator::release on an already-free block")
  | some (count+1) => do
    modify (fun s => {s with referenceCounts := s.referenceCounts.set block count})
    if count=0 then modify (fun s => {s with freeList := block::s.freeList})

/-- The count of a block. -/
def nativeReferenceCount (block : BlockId) : PoolM ℕ := do
  let s ← get
  match s.referenceCounts[block]? with
  | none => throw (.outOfRange "BlockAllocator::reference_count on an unknown block")
  | some count => pure count

/-- Whether a block has exactly one holder. -/
def nativeIsWritable (block : BlockId) : PoolM Bool := do
  let s ← get
  match s.referenceCounts[block]? with
  | none => throw (.outOfRange "BlockAllocator::is_writable on an unknown block")
  | some count => pure (decide (count=1))

/-- Number of blocks handed out, in `size_t`. -/
def nativeUsedBlocks (a : NativeAllocator) : ℕ := word64 (a.total+2^64-a.freeList.length)

/-- Run a call. -/
def nativeCall : PoolCall → PoolM Reply
  | .allocate => .taken <$> nativeAllocate
  | .addReference block => (fun _ => .done) <$> nativeAddReference block
  | .release block => (fun _ => .done) <$> nativeRelease block
  | .referenceCount block => .counted <$> nativeReferenceCount block
  | .isWritable block => .writable <$> nativeIsWritable block

section Calls

variable {a : NativeAllocator} {block count : ℕ} {rest : List BlockId}

/-- The pool after a block was taken off its free list. -/
def taken (a : NativeAllocator) (block : BlockId) (rest : List BlockId) : NativeAllocator :=
  {a with freeList := rest, referenceCounts := a.referenceCounts.set block 1}

/-- The pool after a block was shared. -/
def shared (a : NativeAllocator) (block : BlockId) (count : ℕ) : NativeAllocator :=
  {a with referenceCounts := a.referenceCounts.set block (word32 (count+1+1))}

/-- The pool after a reference was dropped that left `count` others. -/
def dropped (a : NativeAllocator) (block : BlockId) (count : ℕ) : NativeAllocator :=
  {a with
    referenceCounts := a.referenceCounts.set block count
    freeList := if count=0 then block::a.freeList else a.freeList}

/-- The endings of a call, each with what it says about the pool. -/
inductive PoolEffect (a : NativeAllocator) :
    PoolCall → EStateM.Result NativeError NativeAllocator Reply → Prop
  | exhausted (hf : a.freeList=[]) : PoolEffect a .allocate (.ok (.taken none) a)
  | handed {block : BlockId} {rest : List BlockId} (hf : a.freeList=block::rest) :
      PoolEffect a .allocate (.ok (.taken (some block)) (taken a block rest))
  | added {block count : ℕ} (hc : a.referenceCounts[block]?=some (count+1)) :
      PoolEffect a (.addReference block) (.ok .done (shared a block count))
  | released {block count : ℕ} (hc : a.referenceCounts[block]?=some (count+1)) :
      PoolEffect a (.release block) (.ok .done (dropped a block count))
  | read {block count : ℕ} (hc : a.referenceCounts[block]?=some count) :
      PoolEffect a (.referenceCount block) (.ok (.counted count) a)
  | judged {block count : ℕ} (hc : a.referenceCounts[block]?=some count) :
      PoolEffect a (.isWritable block) (.ok (.writable (decide (count=1))) a)
  | unknown {call : PoolCall} {block : BlockId} {e : NativeError} (hb : call.named=some block)
      (hc : a.referenceCounts[block]?=none) : PoolEffect a call (.error e a)
  | unheld {call : PoolCall} {block : BlockId} {e : NativeError}
      (hb : call=.addReference block ∨ call=.release block)
      (hc : a.referenceCounts[block]?=some 0) : PoolEffect a call (.error e a)

theorem nativeAllocate_effect (a : NativeAllocator) :
    PoolEffect a .allocate (nativeCall .allocate a) := by
  cases hf : a.freeList with
  | nil =>
    have hr : nativeAllocate a=.ok none a := by rw [nativeAllocate,bind_get,hf]; rfl
    rw [nativeCall,map_ok hr]
    exact .exhausted hf
  | cons block rest =>
    have hr : nativeAllocate a=.ok (some block) (taken a block rest) := by
      rw [nativeAllocate,bind_get,hf]
      rfl
    rw [nativeCall,map_ok hr]
    exact .handed hf

theorem nativeAddReference_effect (a : NativeAllocator) (block : BlockId) :
    PoolEffect a (.addReference block) (nativeCall (.addReference block) a) := by
  cases hc : a.referenceCounts[block]? with
  | none =>
    have hr : nativeAddReference block a=
        .error (.outOfRange "BlockAllocator::add_reference on an unknown block") a := by
      rw [nativeAddReference,bind_get,hc]
      rfl
    rw [nativeCall,map_error hr]
    exact .unknown rfl hc
  | some count =>
    cases count with
    | zero =>
      have hr : nativeAddReference block a=
          .error (.invalidArgument "BlockAllocator::add_reference on a free block") a := by
        rw [nativeAddReference,bind_get,hc]
        rfl
      rw [nativeCall,map_error hr]
      exact .unheld (.inl rfl) hc
    | succ count =>
      have hr : nativeAddReference block a=.ok () (shared a block count) := by
        rw [nativeAddReference,bind_get,hc]
        rfl
      rw [nativeCall,map_ok hr]
      exact .added hc

/-- The statements of a release leave what the pool's release gives. -/
theorem nativeRelease_eq (a : NativeAllocator) (block : BlockId) :
    nativeRelease block a=match a.release block with
      | .ok b => .ok () b
      | .error e => .error e a := by
  rw [nativeRelease,bind_get,NativeAllocator.release]
  cases hc : a.referenceCounts[block]? with
  | none => rfl
  | some count =>
    cases count with
    | zero => rfl
    | succ count => cases count <;> rfl

theorem nativeRelease_effect (a : NativeAllocator) (block : BlockId) :
    PoolEffect a (.release block) (nativeCall (.release block) a) := by
  have hr := nativeRelease_eq a block
  unfold NativeAllocator.release at hr
  cases hc : a.referenceCounts[block]? with
  | none =>
    rw [hc] at hr
    rw [nativeCall,map_error hr]
    exact .unknown rfl hc
  | some count =>
    rw [hc] at hr
    cases count with
    | zero =>
      rw [nativeCall,map_error hr]
      exact .unheld (.inr rfl) hc
    | succ count =>
      rw [nativeCall,map_ok hr]
      exact .released hc

/-- Every call ends in one of these ways. -/
theorem nativeCall_effect (a : NativeAllocator) (call : PoolCall) :
    PoolEffect a call (nativeCall call a) := by
  cases call with
  | allocate => exact nativeAllocate_effect a
  | addReference block => exact nativeAddReference_effect a block
  | release block => exact nativeRelease_effect a block
  | referenceCount block =>
    cases hc : a.referenceCounts[block]? with
    | none =>
      have hr : nativeReferenceCount block a=
          .error (.outOfRange "BlockAllocator::reference_count on an unknown block") a := by
        rw [nativeReferenceCount,bind_get,hc]
        rfl
      rw [nativeCall,map_error hr]
      exact .unknown rfl hc
    | some count =>
      have hr : nativeReferenceCount block a=.ok count a := by
        rw [nativeReferenceCount,bind_get,hc]
        rfl
      rw [nativeCall,map_ok hr]
      exact .read hc
  | isWritable block =>
    cases hc : a.referenceCounts[block]? with
    | none =>
      have hr : nativeIsWritable block a=
          .error (.outOfRange "BlockAllocator::is_writable on an unknown block") a := by
        rw [nativeIsWritable,bind_get,hc]
        rfl
      rw [nativeCall,map_error hr]
      exact .unknown rfl hc
    | some count =>
      have hr : nativeIsWritable block a=.ok (decide (count=1)) a := by
        rw [nativeIsWritable,bind_get,hc]
        rfl
      rw [nativeCall,map_ok hr]
      exact .judged hc

end Calls

/-- What a call that returned did to the references of a block. -/
inductive Event where
  /-- The block was handed out, with one reference. -/
  | handed (block : BlockId)
  /-- A reference was added. -/
  | added (block : BlockId)
  /-- A reference was dropped. -/
  | dropped (block : BlockId)
  deriving DecidableEq

/-- The block an event is about. -/
def Event.block : Event → BlockId
  | .handed block => block
  | .added block => block
  | .dropped block => block

/-- The events of a call that returned. -/
def eventsOf : PoolCall → Reply → List Event
  | .allocate,.taken (some block) => [.handed block]
  | .addReference block,_ => [.added block]
  | .release block,_ => [.dropped block]
  | _,_ => []

/-- The events since the block was last handed out, latest first. -/
def sinceHanded (block : BlockId) (history : List Event) : List Event :=
  history.takeWhile (fun event => decide (event≠.handed block))

/-- What the references to a block add up to since it was last handed out:
one of the allocation, one for each added, less those dropped. -/
def outstanding (block : BlockId) (history : List Event) : ℤ :=
  if .handed block∈history then
    1+((sinceHanded block history).count (.added block) : ℤ)-
      (sinceHanded block history).count (.dropped block)
  else 0

section Outstanding

variable {block : BlockId} {history : List Event} {event : Event}

theorem outstanding_handed (block : BlockId) (history : List Event) :
    outstanding block (.handed block::history)=1 := by
  have hs : sinceHanded block (.handed block::history)=[] := by
    rw [sinceHanded,List.takeWhile_cons,if_neg]
    simp only [ne_eq,not_true_eq_false,decide_false,Bool.false_eq_true,not_false_eq_true]
  rw [outstanding,if_pos List.mem_cons_self,hs]
  rfl

/-- Any other event joins those since the block was last handed out. -/
theorem sinceHanded_cons (he : event≠.handed block) (history : List Event) :
    sinceHanded block (event::history)=event::sinceHanded block history := by
  rw [sinceHanded,List.takeWhile_cons,if_pos (decide_eq_true he)]
  rfl

theorem outstanding_cons (he : event≠.handed block) (hm : .handed block∈history) :
    outstanding block (event::history)=
      1+((event::sinceHanded block history).count (.added block) : ℤ)-
        (event::sinceHanded block history).count (.dropped block) := by
  rw [outstanding,if_pos (List.mem_cons_of_mem _ hm),sinceHanded_cons he]

theorem outstanding_added (hm : .handed block∈history) :
    outstanding block (.added block::history)=outstanding block history+1 := by
  have hh : Event.added block≠.handed block := nofun
  have ho : Event.added block≠.dropped block := nofun
  rw [outstanding_cons hh hm,outstanding,if_pos hm,List.count_cons_self,List.count_cons_of_ne ho]
  omega

theorem outstanding_dropped (hm : .handed block∈history) :
    outstanding block (.dropped block::history)=outstanding block history-1 := by
  have hh : Event.dropped block≠.handed block := nofun
  have ho : Event.dropped block≠.added block := nofun
  rw [outstanding_cons hh hm,outstanding,if_pos hm,List.count_cons_self,List.count_cons_of_ne ho]
  omega

/-- Events about other blocks do not count. -/
theorem outstanding_other (he : event.block≠block) (history : List Event) :
    outstanding block (event::history)=outstanding block history := by
  have hn : ∀ {other : Event}, other.block=block → event≠other := by
    rintro other ho rfl
    exact he ho
  have hh : event≠.handed block := hn rfl
  by_cases hm : .handed block∈history
  · rw [outstanding_cons hh hm,outstanding,if_pos hm,List.count_cons_of_ne (hn rfl),
      List.count_cons_of_ne (hn rfl)]
  · rw [outstanding,outstanding,if_neg hm,if_neg]
    rw [List.mem_cons]
    rintro (h | h)
    · exact hh h.symm
    · exact hm h

/-- A block with a reference was handed out. -/
theorem handed_of_outstanding (h : 0<outstanding block history) : .handed block∈history := by
  unfold outstanding at h
  by_contra hm
  rw [if_neg hm] at h
  exact absurd h (Int.lt_irrefl 0)

end Outstanding

/-- A pool and what the calls on it did to the references. -/
structure Traced where
  /-- The pool. -/
  pool : NativeAllocator
  /-- The events so far, latest first. -/
  history : List Event

/-- After a call, whether it returned or threw. -/
def Traced.after (v : Traced) (call : PoolCall) : Traced :=
  match nativeCall call v.pool with
  | .ok reply left => ⟨left,eventsOf call reply++v.history⟩
  | .error _ left => ⟨left,v.history⟩

/-- Any calls on a new pool. -/
def sharingMachine (blockCount blockSize : ℕ) : Machine Traced PoolCall where
  starts v := NativeAllocator.create blockCount blockSize=.ok v.pool ∧ v.history=[]
  steps v call w := w=v.after call

/-- The references to a block, none when it is unknown. -/
def held (a : NativeAllocator) (block : BlockId) : ℕ := a.referenceCounts[block]?.getD 0

/-- A block shared once more keeps a count of 32 bits. -/
def CountsFit (v : Traced) : PoolCall → Prop
  | .addReference block => held v.pool block+1<2^32
  | _ => True

instance (v : Traced) : (call : PoolCall) → Decidable (CountsFit v call)
  | .addReference block => inferInstanceAs (Decidable (held v.pool block+1<2^32))
  | .allocate => inferInstanceAs (Decidable True)
  | .release _ => inferInstanceAs (Decidable True)
  | .referenceCount _ => inferInstanceAs (Decidable True)
  | .isWritable _ => inferInstanceAs (Decidable True)

/-- What a pool is to keep while its blocks are shared. -/
structure Sound (v : Traced) : Prop where
  /-- No block is free twice. -/
  free_nodup : v.pool.freeList.Nodup
  /-- The free blocks are those with count 0. -/
  free_exact : ∀ block, block∈v.pool.freeList ↔ v.pool.referenceCounts[block]?=some 0
  /-- Every count is what the calls add up to. -/
  counts : ∀ (block : BlockId) (count : ℕ), v.pool.referenceCounts[block]?=some count →
    (count : ℤ)=outstanding block v.history
  /-- No block is handed out while a reference to it is outstanding. -/
  handed : ∀ block left, nativeCall .allocate v.pool=.ok (.taken (some block)) left →
    outstanding block v.history=0
  /-- The blocks in use are those with a positive count. -/
  used : nativeUsedBlocks v.pool=
    ((List.range v.pool.total).filter (fun block => decide (0<held v.pool block))).length
  /-- The writable blocks are those with a single reference. -/
  writable : ∀ block, nativeCall (.isWritable block) v.pool=.ok (.writable true) v.pool ↔
    outstanding block v.history=1
  /-- A call that throws leaves the pool as it was. -/
  unchanged : ∀ call e left, nativeCall call v.pool=.error e left → left=v.pool

/-- The books that every call keeps. -/
structure Backed (blockCount : ℕ) (v : Traced) : Prop where
  total : v.pool.total=blockCount
  length : v.pool.referenceCounts.length=blockCount
  nodup : v.pool.freeList.Nodup
  exact : ∀ block, block∈v.pool.freeList ↔ v.pool.referenceCounts[block]?=some 0
  counted : ∀ block, (held v.pool block : ℤ)=outstanding block v.history

section Books

variable {blockCount blockSize : ℕ} {v w : Traced} {block other count : ℕ}

theorem held_eq {a : NativeAllocator} (hc : a.referenceCounts[block]?=some count) :
    held a block=count := by
  rw [held,hc]
  rfl

/-- Setting the count of a known block. -/
theorem set_known {counts : List ℕ} (hc : counts[block]?=some count) (n other : ℕ) :
    (counts.set block n)[other]?=if block=other then some n else counts[other]? := by
  obtain ⟨hl,_⟩ := List.getElem?_eq_some_iff.mp hc
  rw [List.getElem?_set,if_pos hl]

/-- The books of the pool follow from those of the changed block. -/
theorem Backed.moved (h : Backed blockCount v) (hc : v.pool.referenceCounts[block]?=some count)
    {n : ℕ} {free : List BlockId} {event : Event} (hb : event.block=block) (hn : free.Nodup)
    (hfree : ∀ other≠block, other∈free ↔ other∈v.pool.freeList) (hz : block∈free ↔ n=0)
    (ho : (n : ℤ)=outstanding block (event::v.history)) :
    Backed blockCount
      ⟨{v.pool with freeList := free, referenceCounts := v.pool.referenceCounts.set block n},
        event::v.history⟩ := by
  refine ⟨h.total,(List.length_set).trans h.length,hn,fun other => ?_,fun other => ?_⟩
  · rw [set_known hc]
    by_cases he : block=other
    · subst he
      rw [if_pos rfl,hz,Option.some.injEq]
    · rw [if_neg he,hfree other (Ne.symm he),h.exact]
  · rw [held,set_known hc]
    by_cases he : block=other
    · subst he
      rw [if_pos rfl]
      exact ho
    · rw [if_neg he,outstanding_other (hb ▸ he)]
      exact h.counted other

/-- Every call keeps the books. -/
theorem Backed.after (h : Backed blockCount v) {call : PoolCall} (hf : CountsFit v call) :
    Backed blockCount (v.after call) := by
  have he := nativeCall_effect v.pool call
  rw [Traced.after]
  generalize nativeCall call v.pool=result at he
  cases he with
  | exhausted _ => exact h
  | @handed block rest hl =>
    have hn := h.nodup
    rw [hl,List.nodup_cons] at hn
    have hc : v.pool.referenceCounts[block]?=some 0 :=
      (h.exact block).mp (hl ▸ List.mem_cons_self)
    refine h.moved hc rfl hn.2 (fun other ho => ?_) ?_ (outstanding_handed block _).symm
    · rw [hl,List.mem_cons]
      exact ⟨.inr,fun hm => hm.resolve_left ho⟩
    · exact iff_of_false hn.1 Nat.one_ne_zero
  | @added block count hc =>
    have hh : held v.pool block=count+1 := held_eq hc
    have hw : word32 (count+1+1)=count+1+1 := Nat.mod_eq_of_lt (hh ▸ hf)
    have hp : (count+1 : ℕ)=outstanding block v.history := hh ▸ h.counted block
    have hm : .handed block∈v.history := handed_of_outstanding (by omega)
    have hnot : block∉v.pool.freeList := fun hm =>
      absurd ((h.exact block).mp hm) (by rw [hc]; nofun)
    refine h.moved hc rfl h.nodup (fun _ _ => Iff.rfl) (iff_of_false hnot (by omega)) ?_
    rw [outstanding_added hm,hw]
    omega
  | @released block count hc =>
    have hp : (count+1 : ℕ)=outstanding block v.history := held_eq hc ▸ h.counted block
    have hm : .handed block∈v.history := handed_of_outstanding (by omega)
    have hnot : block∉v.pool.freeList := fun hm =>
      absurd ((h.exact block).mp hm) (by rw [hc]; nofun)
    have ho : (count : ℤ)=outstanding block (.dropped block::v.history) := by
      rw [outstanding_dropped hm]
      omega
    unfold dropped
    by_cases hz : count=0
    · rw [if_pos hz]
      refine h.moved hc rfl (List.nodup_cons.mpr ⟨hnot,h.nodup⟩) (fun other hne => ?_) ?_ ho
      · rw [List.mem_cons]
        exact ⟨fun hm => hm.resolve_left hne,.inr⟩
      · exact iff_of_true List.mem_cons_self hz
    · rw [if_neg hz]
      exact h.moved hc rfl h.nodup (fun _ _ => Iff.rfl) (iff_of_false hnot hz) ho
  | read _ => exact h
  | judged _ => exact h
  | unknown _ _ => exact h
  | unheld _ _ => exact h

/-- A new pool's books; block ids are not truncated. -/
theorem created_backed (hto : blockCount≤2^32) {a : NativeAllocator}
    (ha : NativeAllocator.create blockCount blockSize=.ok a) : Backed blockCount ⟨a,[]⟩ := by
  unfold NativeAllocator.create at ha
  split_ifs at ha
  have hids : (List.range blockCount).map word32=List.range blockCount := by
    rw [List.map_congr_left (g := id),List.map_id]
    intro block hm
    exact Nat.mod_eq_of_lt (Nat.lt_of_lt_of_le (List.mem_range.mp hm) hto)
  rw [hids] at ha
  rw [←Except.ok.inj ha]
  refine ⟨rfl,List.length_replicate,List.nodup_range,fun block => ?_,fun block => ?_⟩
  · rw [List.mem_range,List.getElem?_replicate]
    split_ifs with hb
    · exact iff_of_true hb rfl
    · exact iff_of_false hb nofun
  · have hz :
        held ⟨blockCount,blockSize,List.range blockCount,List.replicate blockCount 0⟩ block=0 := by
      rw [held,List.getElem?_replicate]
      split_ifs <;> rfl
    rw [hz]
    rfl

/-- The free blocks are the blocks of the pool that nobody holds. -/
theorem Backed.mem_free (h : Backed blockCount v) (block : BlockId) :
    block∈v.pool.freeList ↔ block<blockCount ∧ held v.pool block=0 := by
  rw [h.exact,held,←h.length]
  by_cases hb : block<v.pool.referenceCounts.length
  · rw [List.getElem?_eq_getElem hb,Option.some.injEq,Option.getD_some]
    exact (and_iff_right hb).symm
  · rw [List.getElem?_eq_none (Nat.not_lt.mp hb)]
    exact iff_of_false nofun (fun hm => hb hm.1)

/-- Free blocks and blocks in use make up the pool. -/
theorem Backed.partition (h : Backed blockCount v) :
    v.pool.freeList.length+
      ((List.range blockCount).filter (fun block => decide (0<held v.pool block))).length=
        blockCount := by
  have hp : v.pool.freeList.Perm
      ((List.range blockCount).filter (fun block => !decide (0<held v.pool block))) := by
    refine (List.perm_ext_iff_of_nodup h.nodup (List.nodup_range.filter _)).mpr (fun block => ?_)
    rw [h.mem_free,List.mem_filter,List.mem_range,Bool.not_eq_true',decide_eq_false_iff_not,
      Nat.not_lt,Nat.le_zero]
  have hl := List.length_eq_length_filter_add (l := List.range blockCount)
    (fun block => decide (0<held v.pool block))
  rw [List.length_range,←hp.length_eq] at hl
  exact (Nat.add_comm _ _).trans hl.symm

/-- The books say that sharing is sound. -/
theorem Backed.sound (h : Backed blockCount v) (hto : blockCount≤2^32) : Sound v := by
  refine ⟨h.nodup,h.exact,fun block count hc => held_eq hc ▸ h.counted block,?_,?_,?_,?_⟩
  · intro block left hx
    have he := nativeCall_effect v.pool .allocate
    rw [hx] at he
    cases he with
    | handed hl =>
      have hm := (h.mem_free block).mp (hl ▸ List.mem_cons_self)
      rw [←h.counted,hm.2]
      rfl
  · have hp := h.partition
    rw [nativeUsedBlocks,word64,h.total]
    refine Eq.trans ?_ (Nat.eq_sub_of_add_eq' hp).symm
    omega
  · intro block
    have he := nativeCall_effect v.pool (.isWritable block)
    have hcount := h.counted block
    generalize nativeCall (.isWritable block) v.pool=result at he ⊢
    cases he with
    | @judged _ count hc =>
      rw [held_eq hc] at hcount
      rw [←hcount,EStateM.Result.ok.injEq,Reply.writable.injEq,decide_eq_true_iff,
        and_iff_left rfl,Nat.cast_eq_one]
    | @unknown _ named e hb hc =>
      obtain rfl := Option.some.inj hb
      have hz : held v.pool block=0 := by
        rw [held,hc]
        rfl
      rw [hz] at hcount
      rw [←hcount]
      exact iff_of_false nofun (by decide)
    | unheld hb _ => exact absurd hb (by simp only [reduceCtorEq,or_self,not_false_eq_true])
  · intro call e left hx
    have he := nativeCall_effect v.pool call
    rw [hx] at he
    cases he <;> rfl

end Books

/-- Whatever is called on a new pool of blocks whose ids fit their type, with
no count beyond its 32 bits: no block is free twice, the free blocks are those
with count 0, every count is what the calls since the block was last handed
out add up to, no block is handed out while a reference to it is outstanding,
the blocks in use are those with a positive count, the writable ones those
with a single reference, and a call that throws changes nothing. -/
theorem sharing_sound (blockCount blockSize : ℕ) (hto : blockCount≤2^32) (v : Traced)
    (h : ((sharingMachine blockCount blockSize).guarded CountsFit).Reaches v) : Sound v := by
  have hb : Backed blockCount v := by
    refine h.invariant (P := Backed blockCount) ?_ ?_
    · rintro ⟨pool,history⟩ ⟨hc,rfl⟩
      exact created_backed hto hc
    · rintro v call w hv ⟨hf,rfl⟩
      exact hv.after hf
  exact hb.sound hto

/-- A new pool of two blocks. -/
def twoBlocks : NativeAllocator := ⟨2,1,[0,1],[0,0]⟩

/-- A block is shared and freed twice over. -/
def sharingCalls : List PoolCall :=
  [.allocate,.addReference 0,.release 0,.addReference 1,.release 0,.release 0,.allocate]

/-- The freed block is handed out again, with one reference. -/
theorem shared_reissued :
    ∃ v, ((sharingMachine 2 1).guarded CountsFit).Reaches v ∧ v.history.length=5 ∧
      outstanding 0 v.history=1 ∧ Sound v := by
  obtain ⟨v,hr,hl,ho⟩ := Machine.Reaches.replayed (m := sharingMachine 2 1)
    (P := fun v => v.history.length=5 ∧ outstanding 0 v.history=1)
    (fun v call => decide (CountsFit v call)) (fun _ _ _ ht => (Option.some.inj ht).symm)
    sharingCalls (.start (s := ⟨twoBlocks,[]⟩) ⟨rfl,rfl⟩) (by decide +kernel)
  rw [Machine.guarded_decide] at hr
  exact ⟨v,hr,hl,ho,sharing_sound 2 1 (by decide) v hr⟩

end CudaForge.BlockSharing
