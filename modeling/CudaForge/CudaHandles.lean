import CudaForge.OwnedHandles

/-!
# The owners of CUDA resources

`CudaStream`, `CudaEvent`, `DeviceBuffer` and `PinnedBuffer`: each owns one
handle of the driver or none, can be moved but not copied, and gives its handle
back in its destructor. Any call of the driver may fail. A device buffer checks
the length of what is copied into or out of it; sizes in bytes are words of
sixty-four bits.
-/

namespace CudaForge.CudaHandles

open TransitionRuns OwnedHandles

/-- `CudaStream`, which has no members but its handle. -/
def cudaStream : Kind Unit := ⟨id⟩

/-- `CudaEvent`, with `timing_enabled_`, which stays when the event is moved. -/
def cudaEvent : Kind Bool := ⟨id⟩

/-- `DeviceBuffer`, with `count_`, which the move sets to zero. -/
def deviceBuffer : Kind ℕ := ⟨fun _ => 0⟩

/-- `PinnedBuffer`, with `count_`, which the move sets to zero. -/
def pinnedBuffer : Kind ℕ := ⟨fun _ => 0⟩

/-- `CudaEvent::Purpose`. -/
inductive Purpose where
  | timing
  | ordering
  deriving DecidableEq,Repr

/-- An event of the driver. -/
structure Event where
  /-- Which one it is. -/
  number : ℕ
  /-- Whether it was created without `cudaEventDisableTiming`. -/
  timed : Bool
  deriving DecidableEq,Repr

/-- Both constructors of `CudaStream`: the stream that the driver creates, if it
does not fail. -/
def streamMade (created : Option ℕ) : Option (Owner ℕ Unit) :=
  created.map (fun h => ⟨some h,()⟩)

/-- The constructor of `CudaEvent`. -/
def eventMade (purpose : Purpose) (created : Option ℕ) : Option (Owner Event Bool) :=
  created.map (fun number => ⟨some ⟨number,decide (purpose=.timing)⟩,decide (purpose=.timing)⟩)

/-- An action constructs only what a class's constructors make. -/
def Constructs {H D : Type} (made : Option (Owner H D) → Prop) : Action ℕ H D → Prop
  | .construct _ o => made o
  | _ => True

/-- The runs of streams. -/
def streamMachine : Machine (World ℕ ℕ Unit) (Action ℕ ℕ Unit) :=
  (ownedMachine cudaStream).guarded fun _ a => Constructs (fun o => ∃ created,
    o=streamMade created) a

/-- The runs of events. -/
def eventMachine : Machine (World ℕ Event Bool) (Action ℕ Event Bool) :=
  (ownedMachine cudaEvent).guarded fun _ a => Constructs (fun o => ∃ purpose created,
    o=eventMade purpose created) a

/-- In every run of streams and in every run of events, whatever the driver refuses to
create: no destructor and no assignment gives a handle back twice, every live handle
has exactly one owner, and none is left when the objects are gone. An event that
owns a handle says of it whether it can be timed, wherever it was moved. -/
theorem streams_and_events_safe {w : World ℕ ℕ Unit} {v : World ℕ Event Bool}
    (hw : streamMachine.Reaches w) (hv : eventMachine.Reaches v) :
    Safe cudaStream w ∧ Safe cudaEvent v ∧
      ∀ name o event, v.objects name=some o → o.handle=some event → o.data=event.timed := by
  refine ⟨(reaches_owned hw.of_guarded).safe,(reaches_owned hv.of_guarded).safe,?_⟩
  intro name o event ho he
  refine hv.invariant (P := fun v => ∀ name o, v.objects name=some o →
    ∀ event, o.handle=some event → o.data=event.timed) ?_ ?_ name o ho event he
  · intro v hs name o ho
    rw [hs.1] at ho
    exact absurd ho.symm (Option.some_ne_none o)
  · rintro v a u hv ⟨hc,_,hu⟩
    refine act_objects (P := fun o => ∀ event, o.handle=some event → o.data=event.timed) ?_ hv ?_
      hu
    · exact fun o _ event hn => absurd hn.symm (Option.some_ne_none event)
    · rintro target o rfl event hh
      obtain ⟨purpose,created,hm⟩ := hc
      obtain ⟨number,_,ho⟩ := Option.map_eq_some_iff.mp hm.symm
      rw [←ho] at hh ⊢
      exact congrArg Event.timed (Option.some.inj hh)

/-- An allocation of the driver. -/
structure Allocation where
  /-- Where it begins. -/
  address : ℕ
  /-- How many bytes it has. -/
  bytes : ℕ
  deriving DecidableEq,Repr

/-- `count * sizeof(T)`. -/
def byteCount (itemBytes count : ℕ) : ℕ := count*itemBytes%2^64

/-- The constructors of `DeviceBuffer` and of `PinnedBuffer` that take a count:
nothing is allocated for none. -/
def bufferMade (count : ℕ) (allocated : Option Allocation) : Option (Owner Allocation ℕ) :=
  if 0<count then allocated.map (fun a => ⟨some a,count⟩) else some ⟨none,0⟩

/-- What is done to buffers. -/
inductive BufferCall where
  /-- The default constructor. -/
  | empty (target : ℕ)
  /-- The constructor with a count, and what the driver allocates. -/
  | allocate (target count : ℕ) (allocated : Option Allocation)
  /-- The move constructor. -/
  | moveConstruct (target source : ℕ)
  /-- The move assignment. -/
  | moveAssign (target source : ℕ)
  /-- The destructor. -/
  | destruct (target : ℕ)

/-- The action that a call is. -/
def BufferCall.action : BufferCall → Action ℕ Allocation ℕ
  | .empty target => .construct target (some ⟨none,0⟩)
  | .allocate target count allocated => .construct target (bufferMade count allocated)
  | .moveConstruct target source => .moveConstruct target source
  | .moveAssign target source => .moveAssign target source
  | .destruct target => .destruct target

/-- The driver allocates as many bytes as it is asked for. -/
def Served (itemBytes : ℕ) : BufferCall → Prop
  | .allocate _ count allocated =>
    ∀ a, allocated=some a → a.bytes=byteCount itemBytes count
  | _ => True

/-- The bytes of what is asked for fit into a word. -/
def Fits (itemBytes : ℕ) : BufferCall → Prop
  | .allocate _ count _ => count*itemBytes < 2^64
  | _ => True

/-- The runs of buffers whose elements have so many bytes. -/
def bufferMachine (itemBytes : ℕ) : Machine (World ℕ Allocation ℕ) BufferCall where
  starts w := w.objects=(fun _ => none) ∧ w.live=(fun _ => false)
  steps w call v := Served itemBytes call ∧ Allowed w call.action ∧
    act deviceBuffer w call.action=some v

/-- The check and the copy that `copy_from_host` and `copy_to_host` share: the
bytes of `data_` that the driver is told to touch. -/
def checkedCopy (message : String) (itemBytes : ℕ) (o : Owner Allocation ℕ) (count : ℕ) :
    Except String (Option Allocation×ℕ) :=
  if o.data<count then .error message else .ok (o.handle,byteCount itemBytes count)

/-- `DeviceBuffer::copy_from_host`. -/
def copyFromHost (itemBytes : ℕ) (o : Owner Allocation ℕ) (count : ℕ) :
    Except String (Option Allocation×ℕ) :=
  checkedCopy "DeviceBuffer::copy_from_host exceeds the allocation" itemBytes o count

/-- `DeviceBuffer::copy_to_host`. -/
def copyToHost (itemBytes : ℕ) (o : Owner Allocation ℕ) (count : ℕ) :
    Except String (Option Allocation×ℕ) :=
  checkedCopy "DeviceBuffer::copy_to_host exceeds the allocation" itemBytes o count

/-- `DeviceBuffer::fill_zero`. -/
def fillZero (itemBytes : ℕ) (o : Owner Allocation ℕ) : Option Allocation×ℕ :=
  (o.handle,byteCount itemBytes o.data)

/-- What is touched lies within a live allocation. -/
def Within (live : Allocation → Bool) (touched : Option Allocation×ℕ) : Prop :=
  match touched.1 with
  | none => touched.2=0
  | some a => live a=true ∧ touched.2≤a.bytes

/-- A copy is refused, or it stays within a live allocation. -/
def Bounded (live : Allocation → Bool) (copied : Except String (Option Allocation×ℕ)) : Prop :=
  match copied with
  | .error _ => True
  | .ok touched => Within live touched

/-- A buffer's count is that of its allocation. -/
structure Sized (itemBytes : ℕ) (o : Owner Allocation ℕ) : Prop where
  /-- The allocation holds so many elements. -/
  bytes : ∀ a, o.handle=some a → a.bytes=o.data*itemBytes
  /-- Without an allocation there are none. -/
  empty : o.handle=none → o.data=0
  /-- Their bytes fit into a word. -/
  fits : o.data*itemBytes < 2^64

section Buffers

variable {itemBytes : ℕ} {w : World ℕ Allocation ℕ} {o : Owner Allocation ℕ}

/-- An empty buffer is sized. -/
theorem sized_empty : Sized itemBytes ⟨none,0⟩ :=
  ⟨fun _ h => absurd h.symm (Option.some_ne_none _),fun _ => rfl,by
    rw [Nat.zero_mul]
    exact Nat.two_pow_pos 64⟩

/-- What a call constructs is sized. -/
theorem sized_made {call : BufferCall} (hs : Served itemBytes call) (hf : Fits itemBytes call)
    {target : ℕ} (hm : call.action=.construct target (some o)) : Sized itemBytes o := by
  cases call with
  | empty name =>
    simp only [BufferCall.action,Action.construct.injEq,Option.some.injEq] at hm
    exact hm.2 ▸ sized_empty
  | allocate name count allocated =>
    simp only [BufferCall.action,Action.construct.injEq] at hm
    obtain ⟨_,hm⟩ := hm
    rw [bufferMade] at hm
    split at hm
    · obtain ⟨a,ha,he⟩ := Option.map_eq_some_iff.mp hm
      have hbytes : a.bytes=count*itemBytes :=
        (hs a ha).trans (Nat.mod_eq_of_lt hf)
      rw [←he]
      refine ⟨fun b hb => ?_,fun hn => absurd hn (Option.some_ne_none a),hf⟩
      exact Option.some.inj hb ▸ hbytes
    · exact Option.some.inj hm ▸ sized_empty
  | moveConstruct name source => exact absurd hm (by simp only [BufferCall.action,reduceCtorEq,
      not_false_eq_true])
  | moveAssign name source => exact absurd hm (by simp only [BufferCall.action,reduceCtorEq,
      not_false_eq_true])
  | destruct name => exact absurd hm (by simp only [BufferCall.action,reduceCtorEq,
      not_false_eq_true])

/-- A sized buffer is touched within its allocation. -/
theorem within_of_sized {live : Allocation → Bool} (hs : Sized itemBytes o)
    (hl : ∀ a, o.handle=some a → live a=true) {count : ℕ} (hc : count≤o.data) :
    Within live (o.handle,byteCount itemBytes count) := by
  have hle : count*itemBytes≤o.data*itemBytes := Nat.mul_le_mul_right itemBytes hc
  rw [Within]
  cases hh : o.handle with
  | none =>
    have hz : count=0 := by
      have hd := hs.empty hh
      omega
    rw [hz,byteCount,Nat.zero_mul]
    exact Nat.zero_mod _
  | some a =>
    refine ⟨hl a hh,?_⟩
    rw [byteCount,Nat.mod_eq_of_lt (hle.trans_lt hs.fits),hs.bytes a hh]
    exact hle

/-- A checked copy stays within the buffer's allocation. -/
theorem bounded_of_sized {live : Allocation → Bool} (hs : Sized itemBytes o)
    (hl : ∀ a, o.handle=some a → live a=true) (message : String) (count : ℕ) :
    Bounded live (checkedCopy message itemBytes o count) := by
  rw [checkedCopy]
  split
  · exact trivial
  · next hc => exact within_of_sized hs hl (Nat.le_of_not_lt hc)

/-- In every run of buffers whose sizes fit into a word, whatever the driver refuses:
no call that the language allows gives an allocation back that is not live, every
live allocation has exactly one owner, and no copy and no fill touches a byte
outside the buffer's own live allocation. -/
theorem buffers_safe
    (h : ((bufferMachine itemBytes).guarded (fun _ call => Fits itemBytes call)).Reaches w) :
    Safe deviceBuffer w ∧ Safe pinnedBuffer w ∧
      ∀ name o, w.objects name=some o → Within w.live (fillZero itemBytes o) ∧
        ∀ count, Bounded w.live (copyFromHost itemBytes o count) ∧
          Bounded w.live (copyToHost itemBytes o count) := by
  have hinv : Owned w.handleOf w.live ∧ ∀ name o, w.objects name=some o → Sized itemBytes o := by
    refine h.invariant (P := fun w => Owned w.handleOf w.live ∧
      ∀ name o, w.objects name=some o → Sized itemBytes o) ?_ ?_
    · intro w hw
      refine ⟨reaches_owned (.start hw : (ownedMachine deviceBuffer).Reaches w),?_⟩
      intro name o ho
      rw [hw.1] at ho
      exact absurd ho.symm (Option.some_ne_none o)
    · rintro w call v ⟨hw,hsized⟩ ⟨hf,hserved,hallowed,hv⟩
      obtain ⟨u,hu,hou⟩ : ∃ u, act deviceBuffer w call.action=some u ∧
        Owned u.handleOf u.live := act_owned hw hallowed
      refine ⟨Option.some.inj (hu.symm.trans hv) ▸ hou,?_⟩
      refine act_objects (fun o _ => sized_empty) hsized ?_ hv
      exact fun target o ho => sized_made hserved hf ho
  obtain ⟨ho,hsized⟩ := hinv
  refine ⟨ho.safe,ho.safe,fun name o hn => ?_⟩
  have hl : ∀ a, o.handle=some a → w.live a=true := by
    intro a ha
    refine ho.live_of name a ?_
    rw [World.handleOf,hn,Option.bind_some,ha]
  have hs := hsized name o hn
  exact ⟨within_of_sized hs hl (Nat.le_refl o.data),fun count =>
    ⟨bounded_of_sized hs hl _ count,bounded_of_sized hs hl _ count⟩⟩

end Buffers

/-- A world without objects. -/
def noObjects {H D : Type} : World ℕ H D := ⟨fun _ => none,fun _ => false⟩

/-- A stream and an event for timing have been created. -/
theorem created_safe : ∃ (w : World ℕ ℕ Unit) (v : World ℕ Event Bool),
    w.live 7=true ∧ v.live ⟨3,true⟩=true ∧ Safe cudaStream w ∧ Safe cudaEvent v := by
  have hw : streamMachine.Reaches
      ⟨Function.update (fun _ => none) 0 (some ⟨some 7,()⟩),fun h => decide (some 7=some h)⟩ := by
    refine .step (.start ⟨rfl,rfl⟩ : streamMachine.Reaches noObjects)
      (a := .construct 0 (streamMade (some 7))) ⟨⟨some 7,rfl⟩,⟨rfl,fun _ _ _ _ => rfl⟩,?_⟩
    simp only [act,streamMade,Option.map_some,noObjects,Bool.false_or]
  have hv : eventMachine.Reaches
      ⟨Function.update (fun _ => none) 0 (some ⟨some ⟨3,true⟩,true⟩),
        fun h => decide (some ⟨3,true⟩=some h)⟩ := by
    refine .step (.start ⟨rfl,rfl⟩ : eventMachine.Reaches noObjects)
      (a := .construct 0 (eventMade .timing (some 3)))
      ⟨⟨.timing,some 3,rfl⟩,⟨rfl,fun _ _ _ _ => rfl⟩,?_⟩
    simp only [act,eventMade,Option.map_some,noObjects,Bool.false_or,decide_true]
  have hsafe := streams_and_events_safe hw hv
  exact ⟨_,_,rfl,rfl,hsafe.1,hsafe.2.1⟩

/-- Sixteen numbers of four bytes have been allocated. -/
theorem allocated_safe : ∃ w : World ℕ Allocation ℕ, w.live ⟨4096,64⟩=true ∧
    Safe deviceBuffer w := by
  have hw : ((bufferMachine 4).guarded (fun _ call => Fits 4 call)).Reaches
      ⟨Function.update (fun _ => none) 0 (some ⟨some ⟨4096,64⟩,16⟩),
        fun a => decide (some ⟨4096,64⟩=some a)⟩ := by
    refine .step (.start ⟨rfl,rfl⟩ :
      ((bufferMachine 4).guarded (fun _ call => Fits 4 call)).Reaches noObjects)
      (a := .allocate 0 16 (some ⟨4096,64⟩)) ⟨?_,?_,⟨rfl,fun _ _ _ _ => rfl⟩,?_⟩
    · change 16*4 < 2^64
      norm_num
    · rintro a ha
      rw [←Option.some.inj ha]
      rfl
    · simp only [act,BufferCall.action,bufferMade,Option.map_some,noObjects,Bool.false_or,
        Nat.ofNat_pos,if_true]
  exact ⟨_,rfl,(buffers_safe hw).1⟩

end CudaForge.CudaHandles
