import CudaForge.BlockSharing

/-!
# The two block pools under the same calls

The Python pool takes any natural number for a block id and counts without
bound; the native one receives the id narrowed to 32 bits. A block that
nobody holds may be shared, freed and written to in Python, and is refused
natively. The pools do the same exactly where no call meets that difference.
-/

namespace CudaForge.PoolConformance

open CacheBlocks CacheNative PythonBuiltins BlockSharing

/-- A Python call that returns, with what it leaves, or that raises before it
has assigned anything. -/
def returning {α : Type} (a : BlockAllocator) (result : Except PyError α)
    (reply : α → Reply) (left : α → BlockAllocator) :
    EStateM.Result PyError BlockAllocator Reply :=
  match result with
  | .ok value => .ok (reply value) (left value)
  | .error e => .error e a

/-- Run a call on the Python pool. -/
def pythonCall : PoolCall → BlockAllocator → EStateM.Result PyError BlockAllocator Reply
  | .allocate,a => .ok (.taken a.allocate.1) a.allocate.2
  | .addReference block,a => returning a (a.addReference block) (fun _ => .done) id
  | .release block,a => returning a (a.release block) (fun _ => .done) id
  | .referenceCount block,a => returning a (a.referenceCount block) .counted (fun _ => a)
  | .isWritable block,a => returning a (a.isWritable block) .writable (fun _ => a)

/-- A call as the native pool receives it, its block id narrowed. -/
def narrowed : PoolCall → PoolCall
  | .allocate => .allocate
  | .addReference block => .addReference (word32 block)
  | .release block => .release (word32 block)
  | .referenceCount block => .referenceCount (word32 block)
  | .isWritable block => .isWritable (word32 block)

/-- The state a call leaves, whether it returned or threw. -/
def leftOf {ε σ : Type} : EStateM.Result ε σ Reply → σ
  | .ok _ left => left
  | .error _ left => left

/-- What a call adds to a history. -/
def eventsAfter {ε σ : Type} (call : PoolCall) (history : List Event) :
    EStateM.Result ε σ Reply → List Event
  | .ok reply _ => eventsOf call reply++history
  | .error _ _ => history

/-- The pools have equal free lists and reference counts. -/
def Same (a : BlockAllocator) (b : NativeAllocator) : Prop :=
  b.freeList=a.free ∧ b.referenceCounts=a.references

/-- Both calls return the same value or both fail, and the pools are the same
afterwards. -/
def Alike : EStateM.Result PyError BlockAllocator Reply →
    EStateM.Result NativeError NativeAllocator Reply → Prop
  | .ok reply left,.ok reply' left' => reply=reply' ∧ Same left left'
  | .error _ left,.error _ left' => Same left left'
  | _,_ => False

/-- Along a script every call does alike in both pools. -/
def Agrees : List PoolCall → BlockAllocator → NativeAllocator → Prop
  | [],_,_ => True
  | call::rest,a,b =>
    Alike (pythonCall call a) (nativeCall (narrowed call) b) ∧
      Agrees rest (leftOf (pythonCall call a)) (leftOf (nativeCall (narrowed call) b))

/-- Along a script the Python pool hands out no block while a reference to it
is outstanding. -/
def IssuesOnce : List PoolCall → List Event → BlockAllocator → Prop
  | [],_,_ => True
  | call::rest,history,a =>
    (∀ block left, pythonCall call a=.ok (.taken (some block)) left →
      ¬0<outstanding block history) ∧
      IssuesOnce rest (eventsAfter call history (pythonCall call a)) (leftOf (pythonCall call a))

/-- The references to a block, none when it is unknown. -/
def references (a : BlockAllocator) (block : BlockId) : ℕ := a.references[block]?.getD 0

/-- A call that both pools take alike: a block of the pool that is shared,
freed or asked about for writing has a holder, and a larger id does not narrow
to one that has. -/
def Common (a : BlockAllocator) : PoolCall → Prop
  | .allocate => True
  | .addReference block =>
    if block<a.references.length then 0<references a block ∧ references a block+1<2^32
    else references a (word32 block)=0
  | .release block =>
    if block<a.references.length then 0<references a block else references a (word32 block)=0
  | .referenceCount block => block<a.references.length ∨ a.references.length≤word32 block
  | .isWritable block =>
    if block<a.references.length then 0<references a block else a.references.length≤word32 block

instance (a : BlockAllocator) : (call : PoolCall) → Decidable (Common a call)
  | .allocate => inferInstanceAs (Decidable True)
  | .addReference block => inferInstanceAs (Decidable (
      if block<a.references.length then 0<references a block ∧ references a block+1<2^32
      else references a (word32 block)=0))
  | .release block => inferInstanceAs (Decidable (
      if block<a.references.length then 0<references a block
      else references a (word32 block)=0))
  | .referenceCount block => inferInstanceAs (Decidable (
      block<a.references.length ∨ a.references.length≤word32 block))
  | .isWritable block => inferInstanceAs (Decidable (
      if block<a.references.length then 0<references a block
      else a.references.length≤word32 block))

/-- Along a script every call is common. -/
def Commons : List PoolCall → BlockAllocator → Prop
  | [],_ => True
  | call::rest,a => Common a call ∧ Commons rest (leftOf (pythonCall call a))

instance Commons.decides : (script : List PoolCall) → (a : BlockAllocator) →
    Decidable (Commons script a)
  | [],_ => inferInstanceAs (Decidable True)
  | call::rest,a =>
    have := Commons.decides rest (leftOf (pythonCall call a))
    inferInstanceAs (Decidable (_ ∧ _))

section Calls

variable {a : BlockAllocator} {b : NativeAllocator} {blockCount block count : ℕ}
variable {history : List Event}

/-- A count that the list has. -/
theorem references_some (hc : a.references[block]?=some count) :
    block<a.references.length ∧ references a block=count := by
  refine ⟨(List.getElem?_eq_some_iff.mp hc).1,?_⟩
  rw [references,hc]
  rfl

theorem references_none (hc : a.references[block]?=none) :
    ¬block<a.references.length ∧ references a block=0 := by
  refine ⟨Nat.not_lt.mpr (List.getElem?_eq_none_iff.mp hc),?_⟩
  rw [references,hc]
  rfl

/-- What narrowing leaves of an id that the list has. -/
theorem word32_known (hn : a.references.length≤2^32) (hb : block<a.references.length) :
    word32 block=block := Nat.mod_eq_of_lt (Nat.lt_of_lt_of_le hb hn)

/-- Setting a known count to different values gives different lists. -/
theorem set_inj {counts : List ℕ} (hb : block<counts.length) {m n : ℕ} :
    counts.set block m=counts.set block n ↔ m=n := by
  refine ⟨fun h => ?_,fun h => by rw [h]⟩
  have hg := congrArg (fun l : List ℕ => l[block]?) h
  simp only [List.getElem?_set_self hb,Option.some.injEq] at hg
  exact hg

/-- Either the pool knows the block of a call, which is then not narrowed, or
the Python list has no count for it. -/
theorem known_or_unknown (hn : a.references.length≤2^32) (block : BlockId) :
    (block<a.references.length ∧ word32 block=block ∧
      a.references[block]?=some (references a block)) ∨
    (¬block<a.references.length ∧ a.references[block]?=none) := by
  by_cases hb : block<a.references.length
  · refine Or.inl ⟨hb,word32_known hn hb,?_⟩
    rw [references,List.getElem?_eq_getElem hb]
    rfl
  · exact Or.inr ⟨hb,List.getElem?_eq_none (Nat.not_lt.mp hb)⟩

theorem alike_allocate (h : Same a b) :
    Alike (pythonCall .allocate a) (nativeCall .allocate b) := by
  have he := nativeCall_effect b .allocate
  generalize nativeCall .allocate b=result at he ⊢
  obtain ⟨hf,hr⟩ := h
  cases he with
  | exhausted hl =>
    rw [hf] at hl
    rw [pythonCall,BlockAllocator.allocate,hl]
    exact ⟨rfl,hf,hr⟩
  | handed hl =>
    rw [hf] at hl
    rw [pythonCall,BlockAllocator.allocate,hl,taken,hr]
    exact ⟨rfl,rfl,rfl⟩
  | unknown hb _ => exact absurd hb (by contradiction)
  | unheld hb _ => exact absurd hb (by simp only [reduceCtorEq,or_self,not_false_eq_true])

theorem alike_addReference (h : Same a b) (hn : a.references.length≤2^32) (block : BlockId) :
    Alike (pythonCall (.addReference block) a) (nativeCall (.addReference (word32 block)) b) ↔
      Common a (.addReference block) := by
  have he := nativeCall_effect b (.addReference (word32 block))
  generalize nativeCall (.addReference (word32 block)) b=result at he ⊢
  obtain ⟨hf,hr⟩ := h
  rcases known_or_unknown hn block with ⟨hb,hw,hc⟩ | ⟨hb,hc⟩
  · rw [Common,if_pos hb,pythonCall,BlockAllocator.addReference,hc]
    rw [hw] at he
    cases he with
    | @added _ count hcount =>
      rw [hr,hc,Option.some.injEq] at hcount
      have hset : Alike (returning a (.ok {a with
            references := a.references.set block (references a block+1)}) (fun _ => .done) id)
          (.ok .done (shared b block count)) ↔
            a.references.set block (word32 (count+1+1))=a.references.set block (count+1+1) := by
        rw [hcount,←hr]
        exact ⟨fun ⟨_,_,hs⟩ => hs,fun hs => ⟨rfl,hf,hs⟩⟩
      rw [hset,set_inj hb,hcount,word32]
      omega
    | unknown hb' hcount =>
      obtain rfl := Option.some.inj hb'
      rw [hr,hc] at hcount
      exact absurd hcount nofun
    | unheld hb' hcount =>
      obtain rfl := hb'.elim PoolCall.addReference.inj nofun
      rw [hr,hc,Option.some.injEq] at hcount
      rw [hcount]
      exact iff_of_false id (fun hm => Nat.lt_irrefl 0 hm.1)
  · rw [Common,if_neg hb,pythonCall,BlockAllocator.addReference,hc]
    cases he with
    | added hcount =>
      rw [hr] at hcount
      rw [(references_some hcount).2]
      exact iff_of_false id (Nat.succ_ne_zero _)
    | unknown hb' hcount =>
      obtain rfl := Option.some.inj hb'
      rw [hr] at hcount
      exact iff_of_true ⟨hf,hr⟩ (references_none hcount).2
    | unheld hb' hcount =>
      obtain rfl := hb'.elim PoolCall.addReference.inj nofun
      rw [hr] at hcount
      exact iff_of_true ⟨hf,hr⟩ (references_some hcount).2

theorem alike_release (h : Same a b) (hn : a.references.length≤2^32) (block : BlockId) :
    Alike (pythonCall (.release block) a) (nativeCall (.release (word32 block)) b) ↔
      Common a (.release block) := by
  have he := nativeCall_effect b (.release (word32 block))
  generalize nativeCall (.release (word32 block)) b=result at he ⊢
  obtain ⟨hf,hr⟩ := h
  rcases known_or_unknown hn block with ⟨hb,hw,hc⟩ | ⟨hb,hc⟩
  · rw [Common,if_pos hb,pythonCall,BlockAllocator.release,hc]
    rw [hw] at he
    cases he with
    | released hcount =>
      rw [hr,hc,Option.some.injEq] at hcount
      rw [hcount]
      refine iff_of_true ⟨rfl,?_,?_⟩ (Nat.succ_pos _)
      · rw [dropped,hf]
        rfl
      · rw [dropped,hr]
        rfl
    | unknown hb' hcount =>
      obtain rfl := Option.some.inj hb'
      rw [hr,hc] at hcount
      exact absurd hcount (by contradiction)
    | unheld hb' hcount =>
      obtain rfl := hb'.elim (by intros; contradiction) PoolCall.release.inj
      rw [hr,hc,Option.some.injEq] at hcount
      rw [hcount]
      exact iff_of_false id (Nat.lt_irrefl 0)
  · rw [Common,if_neg hb,pythonCall,BlockAllocator.release,hc]
    cases he with
    | released hcount =>
      rw [hr] at hcount
      rw [(references_some hcount).2]
      exact iff_of_false id (Nat.succ_ne_zero _)
    | unknown hb' hcount =>
      obtain rfl := Option.some.inj hb'
      rw [hr] at hcount
      exact iff_of_true ⟨hf,hr⟩ (references_none hcount).2
    | unheld hb' hcount =>
      obtain rfl := hb'.elim (by intros; contradiction) PoolCall.release.inj
      rw [hr] at hcount
      exact iff_of_true ⟨hf,hr⟩ (references_some hcount).2

theorem alike_referenceCount (h : Same a b) (hn : a.references.length≤2^32) (block : BlockId) :
    Alike (pythonCall (.referenceCount block) a)
      (nativeCall (.referenceCount (word32 block)) b) ↔ Common a (.referenceCount block) := by
  have he := nativeCall_effect b (.referenceCount (word32 block))
  generalize nativeCall (.referenceCount (word32 block)) b=result at he ⊢
  obtain ⟨hf,hr⟩ := h
  rcases known_or_unknown hn block with ⟨hb,hw,hc⟩ | ⟨hb,hc⟩
  · rw [Common,pythonCall,BlockAllocator.referenceCount,hc]
    rw [hw] at he
    cases he with
    | read hcount =>
      rw [hr,hc,Option.some.injEq] at hcount
      exact iff_of_true ⟨congrArg Reply.counted hcount,hf,hr⟩ (.inl hb)
    | unknown hb' hcount =>
      obtain rfl := Option.some.inj hb'
      rw [hr,hc] at hcount
      exact absurd hcount nofun
    | unheld hb' _ => exact absurd hb' (by simp only [reduceCtorEq,or_self,not_false_eq_true])
  · rw [Common,or_iff_right hb,pythonCall,BlockAllocator.referenceCount,hc]
    cases he with
    | read hcount =>
      rw [hr] at hcount
      exact iff_of_false id (Nat.not_le.mpr (references_some hcount).1)
    | unknown hb' hcount =>
      obtain rfl := Option.some.inj hb'
      rw [hr] at hcount
      exact iff_of_true ⟨hf,hr⟩ (Nat.not_lt.mp (references_none hcount).1)
    | unheld hb' _ => exact absurd hb' (by simp only [reduceCtorEq,or_self,not_false_eq_true])

theorem alike_isWritable (h : Same a b) (hn : a.references.length≤2^32) (block : BlockId) :
    Alike (pythonCall (.isWritable block) a) (nativeCall (.isWritable (word32 block)) b) ↔
      Common a (.isWritable block) := by
  have he := nativeCall_effect b (.isWritable (word32 block))
  generalize nativeCall (.isWritable (word32 block)) b=result at he ⊢
  obtain ⟨hf,hr⟩ := h
  rcases known_or_unknown hn block with ⟨hb,hw,hc⟩ | ⟨hb,hc⟩
  · rw [Common,if_pos hb,pythonCall,BlockAllocator.isWritable,hc]
    rw [hw] at he
    cases he with
    | @judged _ count hcount =>
      rw [hr,hc,Option.some.injEq] at hcount
      have hreply : Alike (returning a (.ok (decide (references a block≤1))) .writable fun _ => a)
          (.ok (.writable (decide (count=1))) b) ↔
            decide (references a block≤1)=decide (count=1) :=
        ⟨fun hm => Reply.writable.inj hm.1,fun hm => ⟨congrArg Reply.writable hm,hf,hr⟩⟩
      rw [hreply,decide_eq_decide,hcount]
      omega
    | unknown hb' hcount =>
      obtain rfl := Option.some.inj hb'
      rw [hr,hc] at hcount
      exact absurd hcount nofun
    | unheld hb' _ => exact absurd hb' (by simp only [reduceCtorEq,or_self,not_false_eq_true])
  · rw [Common,if_neg hb,pythonCall,BlockAllocator.isWritable,hc]
    cases he with
    | judged hcount =>
      rw [hr] at hcount
      exact iff_of_false id (Nat.not_le.mpr (references_some hcount).1)
    | unknown hb' hcount =>
      obtain rfl := Option.some.inj hb'
      rw [hr] at hcount
      exact iff_of_true ⟨hf,hr⟩ (Nat.not_lt.mp (references_none hcount).1)
    | unheld hb' _ => exact absurd hb' (by simp only [reduceCtorEq,or_self,not_false_eq_true])

/-- On pools that are the same, a call does alike exactly when it is common. -/
theorem alike_iff (h : Same a b) (hn : a.references.length≤2^32) (call : PoolCall) :
    Alike (pythonCall call a) (nativeCall (narrowed call) b) ↔ Common a call := by
  cases call with
  | allocate => exact iff_of_true (alike_allocate h) trivial
  | addReference block => exact alike_addReference h hn block
  | release block => exact alike_release h hn block
  | referenceCount block => exact alike_referenceCount h hn block
  | isWritable block => exact alike_isWritable h hn block

/-- Calls that do alike leave the same pools. -/
theorem Alike.same {x : EStateM.Result PyError BlockAllocator Reply}
    {y : EStateM.Result NativeError NativeAllocator Reply} (h : Alike x y) :
    Same (leftOf x) (leftOf y) := by
  cases x with
  | ok reply left =>
    cases y with
    | ok reply' left' => exact h.2
    | error e left' => exact h.elim
  | error e left =>
    cases y with
    | ok reply' left' => exact h.elim
    | error e' left' => exact h

/-- A common call counts natively within 32 bits. -/
theorem common_countsFit (h : Same a b) (hn : a.references.length≤2^32) {call : PoolCall}
    (hc : Common a call) (history : List Event) : CountsFit ⟨b,history⟩ (narrowed call) := by
  cases call with
  | addReference block =>
    have hh : ∀ other, held b other=references a other := fun other => by
      rw [held,h.2]
      rfl
    change held b (word32 block)+1<2^32
    rw [hh]
    rw [Common] at hc
    split_ifs at hc with hb
    · rw [word32_known hn hb]
      exact hc.2
    · rw [hc]
      decide
  | _ => trivial

/-- A common call adds the same events to both histories. -/
theorem common_events (hn : a.references.length≤2^32) {call : PoolCall}
    (h : Alike (pythonCall call a) (nativeCall (narrowed call) b)) (history : List Event) :
    eventsAfter (narrowed call) history (nativeCall (narrowed call) b)=
      eventsAfter call history (pythonCall call a) := by
  have hnarrow : ∀ reply left, pythonCall call a=.ok reply left →
      eventsOf (narrowed call) reply=eventsOf call reply := by
    intro reply left hx
    cases call with
    | allocate => rfl
    | addReference block =>
      rcases known_or_unknown hn block with ⟨_,hw,_⟩ | ⟨_,hc⟩
      · rw [narrowed,hw]
      · rw [pythonCall,BlockAllocator.addReference,hc] at hx
        exact absurd hx (by contradiction)
    | release block =>
      rcases known_or_unknown hn block with ⟨_,hw,_⟩ | ⟨_,hc⟩
      · rw [narrowed,hw]
      · rw [pythonCall,BlockAllocator.release,hc] at hx
        exact absurd hx (by contradiction)
    | referenceCount _ => rfl
    | isWritable _ => rfl
  cases hx : pythonCall call a with
  | ok reply left =>
    rw [hx] at h
    cases hy : nativeCall (narrowed call) b with
    | ok reply' left' =>
      rw [hy] at h
      rw [eventsAfter,eventsAfter,←h.1,hnarrow reply left hx]
    | error e left' =>
      rw [hy] at h
      exact h.elim
  | error e left =>
    rw [hx] at h
    cases hy : nativeCall (narrowed call) b with
    | ok reply' left' =>
      rw [hy] at h
      exact h.elim
    | error e' left' => rfl

/-- A call after the events so far. -/
theorem after_eq (v : Traced) (call : PoolCall) :
    v.after call=⟨leftOf (nativeCall call v.pool),
      eventsAfter call v.history (nativeCall call v.pool)⟩ := by
  rw [Traced.after]
  cases nativeCall call v.pool <;> rfl

/-- Only an allocation hands out a block. -/
theorem taken_allocates {call : PoolCall} {taken : Option BlockId} {left : BlockAllocator}
    (hx : pythonCall call a=.ok (.taken taken) left) : call=.allocate := by
  have hreply : ∀ {α : Type} (result : Except PyError α) (reply : α → Reply)
      (next : α → BlockAllocator), returning a result reply next=.ok (.taken taken) left →
        ∃ value, .taken taken=reply value := by
    intro α result reply next hr
    cases result with
    | ok value => exact ⟨value,(EStateM.Result.ok.inj hr).1.symm⟩
    | error e => exact absurd hr nofun
  cases call with
  | allocate => rfl
  | addReference block =>
    obtain ⟨_,hv⟩ := hreply _ _ _ hx
    exact absurd hv nofun
  | release block =>
    obtain ⟨_,hv⟩ := hreply _ _ _ hx
    exact absurd hv nofun
  | referenceCount block =>
    obtain ⟨_,hv⟩ := hreply _ _ _ hx
    exact absurd hv nofun
  | isWritable block =>
    obtain ⟨_,hv⟩ := hreply _ _ _ hx
    exact absurd hv nofun

/-- From pools that are the same, a script does alike in both and hands out no
block twice exactly when every call of it is common. -/
theorem agrees_iff {blockCount : ℕ} (hto : blockCount≤2^32) (script : List PoolCall) :
    ∀ {a : BlockAllocator} {b : NativeAllocator} {history : List Event}, Same a b →
      Backed blockCount ⟨b,history⟩ →
        (Agrees script a b ∧ IssuesOnce script history a ↔ Commons script a) := by
  induction script with
  | nil => exact fun _ _ => iff_of_true ⟨trivial,trivial⟩ trivial
  | cons call rest ih =>
    intro a b history h hb
    have hn : a.references.length≤2^32 := h.2 ▸ hb.length ▸ hto
    have hnext : Common a call →
        (Agrees rest (leftOf (pythonCall call a)) (leftOf (nativeCall (narrowed call) b)) ∧
          IssuesOnce rest (eventsAfter call history (pythonCall call a))
            (leftOf (pythonCall call a)) ↔ Commons rest (leftOf (pythonCall call a))) := by
      intro hc
      have hx := (alike_iff h hn call).mpr hc
      have ha := hb.after (common_countsFit h hn hc history)
      rw [after_eq,common_events hn hx] at ha
      exact ih hx.same ha
    -- a block that is handed out is free natively, so nobody holds it
    have hissue : ∀ block left, pythonCall call a=.ok (.taken (some block)) left →
        ¬0<outstanding block history := by
      intro block left hx
      obtain rfl := taken_allocates hx
      have hd := (hb.sound hto).handed block
      have hal := alike_allocate h
      rw [hx] at hal
      cases hy : nativeCall .allocate b with
      | ok reply left' =>
        rw [hy] at hal
        rw [hd left' (by rw [hy,←hal.1])]
        exact Int.lt_irrefl 0
      | error e left' =>
        rw [hy] at hal
        exact hal.elim
    rw [Agrees,IssuesOnce,Commons,alike_iff h hn]
    constructor
    · rintro ⟨⟨hc,hag⟩,_,his⟩
      exact ⟨hc,(hnext hc).mp ⟨hag,his⟩⟩
    · rintro ⟨hc,hrest⟩
      obtain ⟨hag,his⟩ := (hnext hc).mpr hrest
      exact ⟨⟨hc,hag⟩,hissue,his⟩

end Calls

/-- New pools are the same exactly when no block id is narrowed. -/
theorem created_same {blockCount blockSize : ℕ} {a : BlockAllocator} {b : NativeAllocator}
    (ha : BlockAllocator.create blockCount blockSize=.ok a)
    (hb : NativeAllocator.create blockCount blockSize=.ok b) : Same a b ↔ blockCount≤2^32 := by
  unfold BlockAllocator.create at ha
  unfold NativeAllocator.create at hb
  split_ifs at ha hb
  rw [←Except.ok.inj ha,←Except.ok.inj hb,Same,and_iff_left rfl]
  constructor
  · intro hs
    by_contra hn
    have hg := congrArg (fun l : List ℕ => l[2^32]?) hs
    simp only [List.getElem?_map,List.getElem?_range (Nat.not_le.mp hn),Option.map_some,
      Option.some.injEq] at hg
    exact absurd hg (by decide)
  · intro hle
    refine (List.map_congr_left fun block hm => ?_).trans (List.map_id _)
    exact Nat.mod_eq_of_lt (Nat.lt_of_lt_of_le (List.mem_range.mp hm) hle)

/-- The pools start alike, every call of a script does alike in both and the
Python pool hands out no block while a reference to it is outstanding, exactly
when block ids fit their native type and every call of the script is common. -/
theorem pools_agree_iff (blockCount blockSize : ℕ) {a : BlockAllocator} {b : NativeAllocator}
    (ha : BlockAllocator.create blockCount blockSize=.ok a)
    (hb : NativeAllocator.create blockCount blockSize=.ok b) (script : List PoolCall) :
    (Same a b ∧ Agrees script a b ∧ IssuesOnce script [] a) ↔
      blockCount≤2^32 ∧ Commons script a := by
  rw [created_same ha hb]
  refine and_congr_right fun hto => ?_
  exact agrees_iff hto script ((created_same ha hb).mpr hto) (created_backed hto hb)

/-- The Python pool of two blocks. -/
def twoPythonBlocks : BlockAllocator := ⟨2,1,[0,1],[0,0]⟩

/-- A block is taken, shared, and freed by both holders. -/
def forkedCalls : List PoolCall :=
  [.allocate,.addReference 0,.isWritable 0,.release 0,.referenceCount 5,.release 0,.allocate]

/-- The pools take these calls alike. -/
theorem forked_agree :
    Same twoPythonBlocks twoBlocks ∧ Agrees forkedCalls twoPythonBlocks twoBlocks ∧
      IssuesOnce forkedCalls [] twoPythonBlocks :=
  (pools_agree_iff 2 1 rfl rfl forkedCalls).mpr
    ⟨by decide,by decide⟩

/-- A block nobody holds is shared and freed, then two are taken. -/
def unheldCalls : List PoolCall := [.addReference 0,.release 0,.allocate,.allocate]

/-- The native pool refuses the first call; the Python pool hands block 0 out
twice. -/
theorem unheld_issued_twice :
    BlockAllocator.create 2 1=.ok twoPythonBlocks ∧ NativeAllocator.create 2 1=.ok twoBlocks ∧
      ¬Agrees unheldCalls twoPythonBlocks twoBlocks ∧
        ¬IssuesOnce unheldCalls [] twoPythonBlocks := by
  refine ⟨rfl,rfl,fun h => h.1,fun h => ?_⟩
  exact h.2.2.2.1 0 _ rfl (by decide)

end CudaForge.PoolConformance
