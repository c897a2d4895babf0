import CudaForge.MemoryAccounts
import CudaForge.StreamOrdering

/-!
# A memory pool over a stream

`MemoryPool<StreamOrderedAllocatorBackend>`: the pool's blocks come from and go back to
the driver in the order of one stream, and the pool hands a block on the moment that it
is given back, while kernels of its last holder may still be running. Holders use their
blocks on any streams. A holder that uses a block on another stream than the pool's
orders the two by events, before it uses the block there and before it gives it back.
-/

namespace CudaForge.PooledStreams

open MemoryAccounts MemoryPool StreamOrdering TransitionRuns

variable {P S E : Type} [DecidableEq P] [DecidableEq E]

/-- What the device does about a block. -/
inductive Access (P : Type) where
  /-- `cudaMallocAsync` takes effect. -/
  | mallocAsync (pointer : P)
  /-- `cudaFreeAsync` takes effect. -/
  | freeAsync (pointer : P)
  /-- A kernel or a copy uses the block of a tenancy. -/
  | use (tenancy : ℕ) (pointer : P)

/-- The time between an allocation and the deallocation of its block. -/
structure Tenancy (P : Type) where
  /-- The block. -/
  pointer : P
  /-- How many commands had been issued when it began. -/
  begun : ℕ
  /-- How many when it ended. -/
  ended : Option ℕ

/-- A pool with the device and the tenancies so far. -/
structure Usage (P S E : Type) where
  /-- The pool and its books. -/
  episode : Episode P
  /-- The device. -/
  device : Device S E (Access P) := ⟨[],fun _ => false⟩
  /-- The tenancies, in the order in which they began. -/
  tenancies : List (Tenancy P) := []
  /-- Blocks that `trim` has yet to give back; it holds the pool's lock until then. -/
  returning : List P := []

/-- What a thread or the device does. -/
inductive Action (P S E : Type) where
  /-- `allocate`, with what the driver answers if it is asked. -/
  | allocate (bytes : ℕ) (answer : Option P)
  /-- `deallocate` of a block that a caller holds. -/
  | deallocate (pointer : P)
  /-- `trim` takes the blocks off the free lists. -/
  | trim
  /-- `trim` gives the next of them back. -/
  | freeAsync
  /-- A holder issues work on its block. -/
  | use (tenancy : ℕ) (stream : S)
  /-- An event is recorded. -/
  | record (stream : S) (event : E)
  /-- A stream is made to wait for an event. -/
  | wait (stream : S) (event : E)
  /-- The device finishes a command. -/
  | advance (place : ℕ)

namespace Usage

/-- A command is issued. -/
def issued (s : Usage P S E) (c : Issued S E (Access P)) : Usage P S E :=
  {s with device := StreamOrdering.issue s.device c}

/-- The call of the driver within an allocation. -/
def asked (home : S) (s : Usage P S E) (bytes : ℕ) (answer : Option P) : Usage P S E :=
  match answer with
  | some pointer =>
    if s.episode.pool.Asks bytes then s.issued ⟨home,.work (.mallocAsync pointer)⟩ else s
  | none => s

/-- What an allocation leaves. -/
def allocated (home : S) (s : Usage P S E) (bytes : ℕ) (answer : Option P) : Usage P S E :=
  let after := s.asked home bytes answer
  { after with
    episode := s.episode.apply (.allocate bytes answer)
    tenancies :=
      match (s.episode.pool.allocate answer bytes).1 with
      | .ok (some pointer) => s.tenancies++[⟨pointer,after.device.program.length,none⟩]
      | _ => s.tenancies }

/-- A tenancy after the deallocation of a block. -/
def closed (pointer : P) (place : ℕ) (t : Tenancy P) : Tenancy P :=
  if t.pointer=pointer ∧ t.ended=none then ⟨t.pointer,t.begun,some place⟩ else t

end Usage

/-- The command at a place was issued to a stream. -/
def OnStream (program : List (Issued S E (Access P))) (place : ℕ) (stream : S) : Prop :=
  program[place]?.map Issued.stream=some stream

/-- One step. -/
def steps (home : S) (s : Usage P S E) : Action P S E → Usage P S E → Prop
  | .allocate bytes answer,t => s.returning=[] ∧ s.episode.Permitted (.allocate bytes answer) ∧
    t=s.allocated home bytes answer
  | .deallocate pointer,t => s.returning=[] ∧ pointer∈s.episode.pool.liveBlocks ∧
    t={ s with
      episode := s.episode.apply (.deallocate (some pointer))
      tenancies := s.tenancies.map (Usage.closed pointer s.device.program.length) }
  | .trim,t => s.returning=[] ∧
    t={ s with
      episode := s.episode.apply .trim
      returning := s.episode.pool.trim.1.map Prod.fst }
  | .freeAsync,t => ∃ pointer rest, s.returning=pointer::rest ∧
    t={s.issued ⟨home,.work (.freeAsync pointer)⟩ with returning := rest}
  | .use id stream,t => ∃ tenancy, s.tenancies[id]?=some tenancy ∧ tenancy.ended=none ∧
    t=s.issued ⟨stream,.work (.use id tenancy.pointer)⟩
  | .record stream event,t => t=s.issued ⟨stream,.record event⟩
  | .wait stream event,t => t=s.issued ⟨stream,.wait event⟩
  | .advance place,t => Ready s.device place ∧ t={s with device := finish s.device place}

/-- The pool from its construction; its backend's stream is `home`. -/
def pooled (P S E : Type) [DecidableEq P] [DecidableEq E] (home : S) (minBlockBytes : ℕ) :
    Machine (Usage P S E) (Action P S E) where
  starts s := ∃ pool, create minBlockBytes=.ok pool ∧ s={episode := {pool := pool}}
  steps s a t := steps home s a t

/-- The order by events that a holder owes: a use on another stream comes after a wait
for an event that the pool's stream recorded within the tenancy, and before a block is
given back the pool's stream waits for an event that each other stream recorded after
its use. -/
def Ordered (home : S) (s : Usage P S E) : Action P S E → Prop
  | .use id stream => stream=home ∨ ∃ waited recorded tenancy, s.tenancies[id]?=some tenancy ∧
    OnStream s.device.program waited stream ∧
    awaited s.device.program waited=some recorded ∧
    OnStream s.device.program recorded home ∧ tenancy.begun ≤ recorded
  | .deallocate pointer => ∀ id place stream tenancy, s.tenancies[id]?=some tenancy →
    tenancy.ended=none →
    s.device.program[place]?=some ⟨stream,.work (.use id pointer)⟩ →
    stream=home ∨ ∃ waited recorded, OnStream s.device.program waited home ∧
      awaited s.device.program waited=some recorded ∧
      OnStream s.device.program recorded stream ∧ place ≤ recorded
  | _ => True

section Programs

variable {program : List (Issued S E (Access P))} {first second place waited recorded : ℕ}
  {stream : S}

omit [DecidableEq P] [DecidableEq E] in
/-- What was issued stays where it was. -/
theorem getElem?_issue (c : Issued S E (Access P)) (d : Device S E (Access P))
    {x : Issued S E (Access P)} (h : d.program[place]?=some x) :
    (StreamOrdering.issue d c).program[place]?=some x := by
  rw [StreamOrdering.issue,List.getElem?_append_left (List.getElem?_eq_some_iff.mp h).1,h]

omit [DecidableEq P] [DecidableEq E] in
/-- What stands at a place was there, or has just been issued. -/
theorem of_getElem?_issue {c x : Issued S E (Access P)} {d : Device S E (Access P)}
    (h : (StreamOrdering.issue d c).program[place]?=some x) :
    d.program[place]?=some x ∨ (place=d.program.length ∧ x=c) := by
  rw [StreamOrdering.issue] at h
  rcases Nat.lt_or_ge place d.program.length with hlt | hge
  · rw [List.getElem?_append_left hlt] at h
    exact Or.inl h
  · rw [List.getElem?_append_right hge] at h
    have hzero : place-d.program.length=0 := by
      by_contra hne
      rw [List.getElem?_eq_none (by simp only [List.length_singleton]; omega)] at h
      exact absurd h.symm (Option.some_ne_none x)
    rw [hzero,List.getElem?_cons_zero] at h
    exact Or.inr ⟨by omega,(Option.some.inj h).symm⟩

omit [DecidableEq P] in
/-- What comes before what still does. -/
theorem before_issue (c : Issued S E (Access P)) (d : Device S E (Access P))
    (h : Before d.program first second) :
    Before (StreamOrdering.issue d c).program first second := by
  induction h with
  | single hd => exact .single ((direct_append [c] hd.2.1).mpr hd)
  | tail _ hd ih => exact ih.tail ((direct_append [c] hd.2.1).mpr hd)

omit [DecidableEq P] in
/-- A record comes directly before the wait for it. -/
theorem before_of_awaited (h : awaited program waited=some recorded) :
    Before program recorded waited := by
  have hw := h
  rw [awaited] at hw
  split at hw
  · next stream event he =>
    exact .single ⟨(lastRecord_spec hw).1,(List.getElem?_eq_some_iff.mp he).1,Or.inr h⟩
  · exact absurd hw.symm (Option.some_ne_none recorded)

end Programs

/-- A place comes before another, or is it. -/
def Reached (program : List (Issued S E (Access P))) (first second : ℕ) : Prop :=
  first=second ∨ Before program first second

/-- What holds of the commands and the tenancies: each use falls between two moments of
the pool's stream, of which the first is within its tenancy and the second before its
end; no two tenancies of a block overlap; and the block of a tenancy was obtained before
it began and not given back before it ended. -/
structure Kept (home : S) (s : Usage P S E) : Prop where
  /-- The books of the pool. -/
  booked : Booked s.episode
  /-- Size classes are powers of two. -/
  floor : ∃ k, s.episode.pool.minBlockBytes=2^k
  /-- What has finished is closed under what comes before. -/
  coherent : Coherent s.device
  /-- The block of an open tenancy is held. -/
  held : ∀ (id : ℕ) (t : Tenancy P), s.tenancies[id]?=some t → t.ended=none →
    t.pointer∈s.episode.pool.liveBlocks
  /-- Tenancies begin and end within the program. -/
  within : ∀ (id : ℕ) (t : Tenancy P), s.tenancies[id]?=some t → t.begun ≤ s.device.program.length ∧
    ∀ e, t.ended=some e → e ≤ s.device.program.length
  /-- Of one block, one ends before the next begins. -/
  apart : ∀ (a b : ℕ) (t u : Tenancy P), a < b → s.tenancies[a]?=some t →
    s.tenancies[b]?=some u → t.pointer=u.pointer → ∃ e, t.ended=some e ∧ e ≤ u.begun
  /-- A use comes after a moment of the pool's stream within its tenancy. -/
  entered : ∀ (place : ℕ) (stream : S) (id : ℕ) (pointer : P),
    s.device.program[place]?=some ⟨stream,.work (.use id pointer)⟩ →
    ∃ t, s.tenancies[id]?=some t ∧ t.pointer=pointer ∧ ∃ k,
      OnStream s.device.program k home ∧ t.begun ≤ k ∧ Reached s.device.program k place
  /-- It comes before a moment of the pool's stream before the end of its tenancy. -/
  left : ∀ (place : ℕ) (stream : S) (id : ℕ) (pointer : P) (t : Tenancy P) (e : ℕ),
    s.device.program[place]?=some ⟨stream,.work (.use id pointer)⟩ →
    s.tenancies[id]?=some t → t.ended=some e → ∃ k,
      OnStream s.device.program k home ∧ k < e ∧ Reached s.device.program place k
  /-- The driver is called on the pool's stream. -/
  frees : ∀ (place : ℕ) (stream : S) (pointer : P),
    s.device.program[place]?=some ⟨stream,.work (.freeAsync pointer)⟩ → stream=home
  /-- A tenancy has its block from before it begins until it ends. -/
  obtained : ∀ (id : ℕ) (t : Tenancy P), s.tenancies[id]?=some t → ∃ m : ℕ, m < t.begun ∧
    s.device.program[m]?=some ⟨home,.work (.mallocAsync t.pointer)⟩ ∧
    ∀ f : ℕ, s.device.program[f]?=some ⟨home,.work (.freeAsync t.pointer)⟩ →
      f < m ∨ ∃ e, t.ended=some e ∧ e ≤ f
  /-- A block that is out was not given back since it was obtained. -/
  owned : ∀ block∈s.episode.outstanding, ∃ m : ℕ,
    s.device.program[m]?=some ⟨home,.work (.mallocAsync block.1)⟩ ∧
    ∀ f : ℕ, s.device.program[f]?=some ⟨home,.work (.freeAsync block.1)⟩ → f < m
  /-- What is on its way back is not out. -/
  returned : ∀ pointer∈s.returning, pointer∉s.episode.outstanding.map Prod.fst

section Steps

variable {home stream : S} {s t : Usage P S E} {pointer : P} {place id bytes : ℕ}
  {answer : Option P} {minBlockBytes : ℕ}

omit [DecidableEq E] in
/-- Held blocks are out. -/
theorem outstanding_of_held {e : Episode P} (hb : Booked e) (h : pointer∈e.pool.liveBlocks) :
    pointer∈e.outstanding.map Prod.fst := by
  obtain ⟨blockBytes,hl⟩ := Option.isSome_iff_exists.mp (AList.lookup_isSome.mpr h)
  have hm : (pointer,blockBytes)∈e.pool.live++e.pool.cached :=
    List.mem_append_left _ (mem_live.mpr hl)
  exact List.mem_map_of_mem (hb.blocks.mem_iff.mp hm)

omit [DecidableEq E] in
/-- Cached blocks are out and not held. -/
theorem cached_apart {e : Episode P} (hb : Booked e) {block : Block P}
    (h : block∈e.pool.cached) :
    block∈e.outstanding ∧ block.1∉e.pool.liveBlocks := by
  refine ⟨hb.blocks.mem_iff.mp (List.mem_append_right _ h),fun hl => ?_⟩
  obtain ⟨blockBytes,hlookup⟩ := Option.isSome_iff_exists.mp (AList.lookup_isSome.mpr hl)
  have hn := Accounts.apart hb
  rw [List.map_append] at hn
  exact (List.nodup_append.mp hn).2.2 _ (List.mem_map_of_mem (mem_live.mpr hlookup)) _
    (List.mem_map_of_mem h) rfl

/-- Issuing a command keeps everything, if a use follows a moment within its tenancy and
what is given back is not out. -/
theorem Kept.issued (h : Kept home s) {c : Issued S E (Access P)}
    (huse : ∀ stream id pointer, c=⟨stream,.work (.use id pointer)⟩ → ∃ t,
      s.tenancies[id]?=some t ∧ t.pointer=pointer ∧ t.ended=none ∧ ∃ k,
        OnStream (StreamOrdering.issue s.device c).program k home ∧ t.begun ≤ k ∧
        Reached (StreamOrdering.issue s.device c).program k s.device.program.length)
    (hfree : ∀ stream pointer, c=⟨stream,.work (.freeAsync pointer)⟩ →
      stream=home ∧ pointer∉s.episode.outstanding.map Prod.fst) : Kept home (s.issued c) := by
  have hlen : (StreamOrdering.issue s.device c).program.length=s.device.program.length+1 := by
    rw [StreamOrdering.issue,List.length_append,List.length_singleton]
  have hon : ∀ {k : ℕ}, OnStream s.device.program k home →
      OnStream (StreamOrdering.issue s.device c).program k home := by
    intro k hk
    obtain ⟨x,hx,he⟩ := Option.map_eq_some_iff.mp hk
    rw [OnStream,getElem?_issue c s.device hx,Option.map_some,he]
  have hreached : ∀ {a b : ℕ}, Reached s.device.program a b →
      Reached (StreamOrdering.issue s.device c).program a b := by
    intro a b hr
    rcases hr with he | hb
    · exact Or.inl he
    · exact Or.inr (before_issue c s.device hb)
  have hend : ∀ (id : ℕ) (t : Tenancy P), s.tenancies[id]?=some t →
      t.pointer∉s.episode.outstanding.map Prod.fst →
      ∃ e, t.ended=some e ∧ e ≤ s.device.program.length := by
    intro id t ht hout
    cases he : t.ended with
    | none => exact absurd (outstanding_of_held h.booked (h.held id t ht he)) hout
    | some e => exact ⟨e,rfl,(h.within id t ht).2 e he⟩
  refine ⟨h.booked,h.floor,h.coherent.issue c,h.held,fun id t ht => ?_,h.apart,?_,?_,?_,?_,?_,
    h.returned⟩
  · obtain ⟨hb,he⟩ := h.within id t ht
    exact ⟨hb.trans (by rw [Usage.issued,hlen]; omega),
      fun e hended => (he e hended).trans (by rw [Usage.issued,hlen]; omega)⟩
  · intro place stream id pointer hp
    rcases of_getElem?_issue hp with hold | ⟨rfl,rfl⟩
    · obtain ⟨t,ht,hpointer,k,hk,hle,hr⟩ := h.entered place stream id pointer hold
      exact ⟨t,ht,hpointer,k,hon hk,hle,hreached hr⟩
    · obtain ⟨t,ht,hpointer,-,hk⟩ := huse stream id pointer rfl
      exact ⟨t,ht,hpointer,hk⟩
  · intro place stream id pointer t e hp ht he
    rcases of_getElem?_issue hp with hold | ⟨rfl,rfl⟩
    · obtain ⟨k,hk,hlt,hr⟩ := h.left place stream id pointer t e hold ht he
      exact ⟨k,hon hk,hlt,hreached hr⟩
    · obtain ⟨u,hu,-,hopen,-⟩ := huse stream id pointer rfl
      have heq : t=u := Option.some.inj (ht.symm.trans hu)
      rw [heq,hopen] at he
      exact absurd he.symm (Option.some_ne_none e)
  · intro place stream pointer hp
    rcases of_getElem?_issue hp with hold | ⟨-,hc⟩
    · exact h.frees place stream pointer hold
    · exact (hfree stream pointer hc.symm).1
  · intro id t ht
    obtain ⟨m,hm,hmalloc,hfrees⟩ := h.obtained id t ht
    refine ⟨m,hm,getElem?_issue c s.device hmalloc,fun f hf => ?_⟩
    rcases of_getElem?_issue hf with hold | ⟨rfl,hc⟩
    · exact hfrees f hold
    · exact Or.inr (hend id t ht (hfree home t.pointer hc.symm).2)
  · intro block hblock
    obtain ⟨m,hmalloc,hfrees⟩ := h.owned block hblock
    refine ⟨m,getElem?_issue c s.device hmalloc,fun f hf => ?_⟩
    rcases of_getElem?_issue hf with hold | ⟨rfl,hc⟩
    · exact hfrees f hold
    · exact absurd (List.mem_map_of_mem hblock) (hfree home block.1 hc.symm).2

omit [DecidableEq P] in
/-- Books that hold at least the same blocks and have no more out. -/
theorem Kept.rebooked (h : Kept home s) {e : Episode P} (hb : Booked e)
    (hf : ∃ k, e.pool.minBlockBytes=2^k)
    (hlive : ∀ pointer∈s.episode.pool.liveBlocks, pointer∈e.pool.liveBlocks)
    (hout : ∀ block∈e.outstanding, block∈s.episode.outstanding) :
    Kept home {s with episode := e} where
  booked := hb
  floor := hf
  coherent := h.coherent
  held id t ht hopen := hlive _ (h.held id t ht hopen)
  within := h.within
  apart := h.apart
  entered := h.entered
  left := h.left
  frees := h.frees
  obtained := h.obtained
  owned block hm := h.owned block (hout block hm)
  returned pointer hm hin := by
    obtain ⟨block,hblock,he⟩ := List.mem_map.mp hin
    exact h.returned pointer hm (List.mem_map.mpr ⟨block,hout block hblock,he⟩)

omit [DecidableEq P] in
/-- A tenancy of a block begins that nobody holds, that was obtained and that has not
been given back since. -/
theorem Kept.began (h : Kept home s) (hnew : pointer∉s.episode.pool.liveBlocks)
    {e : Episode P} (hb : Booked e) (hf : ∃ k, e.pool.minBlockBytes=2^k)
    (hlive : ∀ other, other=pointer ∨ other∈s.episode.pool.liveBlocks → other∈e.pool.liveBlocks)
    {m : ℕ} (hm : s.device.program[m]?=some ⟨home,.work (.mallocAsync pointer)⟩)
    (hfrees : ∀ f : ℕ, s.device.program[f]?=some ⟨home,.work (.freeAsync pointer)⟩ → f < m)
    (hout : ∀ block∈e.outstanding, block∈s.episode.outstanding ∨ block.1=pointer)
    (hr : s.returning=[]) :
    Kept home { s with
      episode := e
      tenancies := s.tenancies++[⟨pointer,s.device.program.length,none⟩] } := by
  have hcases : ∀ {id : ℕ} {t : Tenancy P},
      (s.tenancies++[⟨pointer,s.device.program.length,none⟩])[id]?=some t →
      s.tenancies[id]?=some t ∨
        (id=s.tenancies.length ∧ t=⟨pointer,s.device.program.length,none⟩) := by
    intro id t ht
    rcases Nat.lt_or_ge id s.tenancies.length with hlt | hge
    · rw [List.getElem?_append_left hlt] at ht
      exact Or.inl ht
    · rw [List.getElem?_append_right hge] at ht
      have hzero : id-s.tenancies.length=0 := by
        by_contra hne
        rw [List.getElem?_eq_none (by simp only [List.length_singleton]; omega)] at ht
        exact absurd ht.symm (Option.some_ne_none t)
      rw [hzero,List.getElem?_cons_zero] at ht
      exact Or.inr ⟨by omega,(Option.some.inj ht).symm⟩
  have hkeep : ∀ {id : ℕ} {t : Tenancy P}, s.tenancies[id]?=some t →
      (s.tenancies++[⟨pointer,s.device.program.length,none⟩])[id]?=some t := by
    intro id t ht
    rw [List.getElem?_append_left (List.getElem?_eq_some_iff.mp ht).1,ht]
  have hplace : m < s.device.program.length := (List.getElem?_eq_some_iff.mp hm).1
  refine ⟨hb,hf,h.coherent,?_,?_,?_,?_,?_,h.frees,?_,?_,?_⟩
  · intro id t ht hopen
    rcases hcases ht with hold | ⟨-,rfl⟩
    · exact hlive _ (Or.inr (h.held id t hold hopen))
    · exact hlive _ (Or.inl rfl)
  · intro id t ht
    rcases hcases ht with hold | ⟨-,rfl⟩
    · exact h.within id t hold
    · exact ⟨le_rfl,fun e he => absurd he.symm (Option.some_ne_none e)⟩
  · intro a b t u hab ht hu hsame
    have ha : s.tenancies[a]?=some t := by
      rcases hcases ht with hold | ⟨rfl,-⟩
      · exact hold
      · have hb := (List.getElem?_eq_some_iff.mp hu).1
        rw [List.length_append,List.length_singleton] at hb
        omega
    rcases hcases hu with hold | ⟨-,rfl⟩
    · exact h.apart a b t u hab ha hold hsame
    · have hpointer : t.pointer=pointer := hsame
      cases he : t.ended with
      | none => exact absurd (hpointer ▸ h.held a t ha he) hnew
      | some e => exact ⟨e,rfl,(h.within a t ha).2 e he⟩
  · intro place stream id other hp
    obtain ⟨t,ht,hk⟩ := h.entered place stream id other hp
    exact ⟨t,hkeep ht,hk⟩
  · intro place stream id other t e hp ht he
    obtain ⟨u,hu,-⟩ := h.entered place stream id other hp
    have heq : t=u := Option.some.inj (ht.symm.trans (hkeep hu))
    exact h.left place stream id other t e hp (heq ▸ hu) he
  · intro id t ht
    rcases hcases ht with hold | ⟨-,rfl⟩
    · exact h.obtained id t hold
    · exact ⟨m,hplace,hm,fun f hfree => Or.inl (hfrees f hfree)⟩
  · intro block hblock
    rcases hout block hblock with hold | he
    · exact h.owned block hold
    · exact ⟨m,by rw [he]; exact hm,fun f hfree => hfrees f (by rw [he] at hfree; exact hfree)⟩
  · intro other ho
    change other∈s.returning at ho
    rw [hr] at ho
    exact absurd ho List.not_mem_nil

/-- Calling the driver keeps everything. -/
theorem Kept.asked (h : Kept home s) : Kept home (s.asked home bytes answer) := by
  cases answer with
  | none => exact h
  | some pointer =>
    change Kept home (if s.episode.pool.Asks bytes then
      s.issued ⟨home,.work (.mallocAsync pointer)⟩ else s)
    split
    · refine h.issued (fun stream id other hc => ?_) (fun stream other hc => ?_)
      · cases hc
      · cases hc
    · exact h

/-- An allocation keeps everything. -/
theorem Kept.allocated (h : Kept home s) (hr : s.returning=[])
    (hp : s.episode.Permitted (.allocate bytes answer)) :
    Kept home (s.allocated home bytes answer) := by
  have hb := booked_allocate h.booked h.floor hp
  have hf : ∃ k, (s.episode.apply (.allocate bytes answer)).pool.minBlockBytes=2^k := by
    rw [apply_minBlockBytes]
    exact h.floor
  have hout : ¬s.episode.pool.Asks bytes →
      (s.episode.apply (.allocate bytes answer)).outstanding=s.episode.outstanding := by
    intro hz
    cases answer with
    | none => rfl
    | some other => exact if_neg hz
  have hasked : ¬s.episode.pool.Asks bytes → s.asked home bytes answer=s := by
    intro hz
    cases answer with
    | none => rfl
    | some other => exact if_neg hz
  have he := allocate_effect s.episode.pool answer bytes
  have hpool : (s.episode.apply (.allocate bytes answer)).pool=
      (s.episode.pool.allocate answer bytes).2 := rfl
  rw [Usage.allocated]
  generalize s.episode.pool.allocate answer bytes=result at he hpool
  cases he with
  | empty hz h0 =>
    rw [hasked hz]
    exact h.rebooked hb hf (fun pointer hl => by rw [hpool]; exact hl)
      (fun block hm => by rw [hout hz] at hm; exact hm)
  | reuse pointer hz hlist =>
    rw [hasked hz]
    have hcached : (pointer,s.episode.pool.roundUp bytes)∈s.episode.pool.cached :=
      mem_cached.mpr (hlist ▸ List.mem_append_right _ (List.mem_singleton_self pointer))
    obtain ⟨hmem,hnew⟩ := cached_apart h.booked hcached
    obtain ⟨m,hm,hfrees⟩ := h.owned _ hmem
    refine h.began hnew hb hf (fun other ho => ?_) hm hfrees
      (fun block hblock => Or.inl (by rw [hout hz] at hblock; exact hblock)) hr
    rw [hpool]
    exact (AList.mem_insert _).mpr ho
  | refuse hz hn =>
    rw [show s.asked home bytes answer=s by rw [hn]; rfl]
    refine h.rebooked hb hf (fun pointer hl => by rw [hpool]; exact hl) (fun block hm => ?_)
    rw [hn] at hm
    exact hm
  | obtain pointer hz hn =>
    subst hn
    have hask : s.asked home bytes (some pointer)=
        s.issued ⟨home,.work (.mallocAsync pointer)⟩ := if_pos hz
    have hkept : Kept home (s.asked home bytes (some pointer)) := h.asked
    rw [hask] at hkept ⊢
    have hnot : pointer∉s.episode.outstanding.map Prod.fst := hp hz
    have hnew : pointer∉s.episode.pool.liveBlocks :=
      fun hl => hnot (outstanding_of_held h.booked hl)
    have hlast : (s.issued (⟨home,.work (.mallocAsync pointer)⟩ :
        Issued S E (Access P))).device.program[s.device.program.length]?=
          some ⟨home,.work (.mallocAsync pointer)⟩ := List.getElem?_concat_length
    refine hkept.began hnew hb hf (fun other ho => ?_) hlast (fun f hfree => ?_)
      (fun block hblock => ?_) hr
    · rw [hpool]
      exact (AList.mem_insert _).mpr ho
    · rcases of_getElem?_issue hfree with hold | ⟨-,hc⟩
      · exact (List.getElem?_eq_some_iff.mp hold).1
      · cases hc
    · have hlist : (s.episode.apply (.allocate bytes (some pointer))).outstanding=
          (pointer,s.episode.pool.roundUp bytes)::s.episode.outstanding := if_pos hz
      rw [hlist] at hblock
      rcases List.mem_cons.mp hblock with rfl | hblock
      · exact Or.inr rfl
      · exact Or.inl hblock

/-- A deallocation keeps everything, if the uses of the block come before moments of the
pool's stream. -/
theorem Kept.deallocated (h : Kept home s) (hg : Ordered home s (.deallocate pointer)) :
    Kept home { s with
      episode := s.episode.apply (.deallocate (some pointer))
      tenancies := s.tenancies.map (Usage.closed pointer s.device.program.length) } := by
  have hout : (s.episode.apply (.deallocate (some pointer))).outstanding=
      s.episode.outstanding := rfl
  have hlive : ∀ other, other≠pointer → other∈s.episode.pool.liveBlocks →
      other∈(s.episode.apply (.deallocate (some pointer))).pool.liveBlocks := by
    intro other hne ho
    change other∈(s.episode.pool.deallocate (some pointer)).2.liveBlocks
    rcases deallocate_effect s.episode.pool (some pointer) with he | ⟨held,size,hs,-,he⟩
    · rw [he]
      exact ho
    · rw [he]
      exact AList.mem_erase.mpr ⟨fun hheld => hne (hheld.trans (Option.some.inj hs).symm),ho⟩
  have hcases : ∀ {id : ℕ} {t : Tenancy P},
      (s.tenancies.map (Usage.closed pointer s.device.program.length))[id]?=some t →
      ∃ u, s.tenancies[id]?=some u ∧ t.pointer=u.pointer ∧ t.begun=u.begun ∧
        ((t.ended=u.ended ∧ ¬(u.pointer=pointer ∧ u.ended=none)) ∨
          (u.pointer=pointer ∧ u.ended=none ∧ t.ended=some s.device.program.length)) := by
    intro id t ht
    rw [List.getElem?_map] at ht
    obtain ⟨u,hu,rfl⟩ := Option.map_eq_some_iff.mp ht
    refine ⟨u,hu,?_⟩
    rw [Usage.closed]
    split
    · next hc => exact ⟨rfl,rfl,Or.inr ⟨hc.1,hc.2,rfl⟩⟩
    · next hc => exact ⟨rfl,rfl,Or.inl ⟨rfl,hc⟩⟩
  refine ⟨booked_deallocate h.booked (some pointer),by rw [apply_minBlockBytes]; exact h.floor,
    h.coherent,?_,?_,?_,?_,?_,h.frees,?_,h.owned,h.returned⟩
  · intro id t ht hopen
    obtain ⟨u,hu,hpointer,-,⟨hended,hnot⟩ | ⟨-,-,hended⟩⟩ := hcases ht
    · rw [hpointer]
      exact hlive _ (fun hp => hnot ⟨hp,hended.symm.trans hopen⟩)
        (h.held id u hu (hended.symm.trans hopen))
    · exact absurd (hopen.symm.trans hended) (by simp only [reduceCtorEq,not_false_eq_true])
  · intro id t ht
    obtain ⟨u,hu,-,hbegun,⟨hended,-⟩ | ⟨-,-,hended⟩⟩ := hcases ht
    · obtain ⟨hb,he⟩ := h.within id u hu
      exact ⟨hbegun.le.trans hb,fun e hte => he e (hended.symm.trans hte)⟩
    · refine ⟨hbegun.le.trans (h.within id u hu).1,fun e hte => ?_⟩
      exact (Option.some.inj (hte.symm.trans hended)).le
  · intro a b t u hab ht hu hsame
    obtain ⟨t',ht',hp,-,hcase⟩ := hcases ht
    obtain ⟨u',hu',hq,hbegun,-⟩ := hcases hu
    obtain ⟨e,he,hle⟩ := h.apart a b t' u' hab ht' hu' (hp.symm.trans (hsame.trans hq))
    rcases hcase with ⟨hended,-⟩ | ⟨-,hopen,-⟩
    · exact ⟨e,hended.trans he,hbegun ▸ hle⟩
    · exact absurd (hopen.symm.trans he) (by simp only [reduceCtorEq,not_false_eq_true])
  · intro place stream id other hp
    obtain ⟨u,hu,hpointer,k,hk,hle,hr⟩ := h.entered place stream id other hp
    refine ⟨Usage.closed pointer s.device.program.length u,by rw [List.getElem?_map,hu]; rfl,?_⟩
    rw [Usage.closed]
    split <;> exact ⟨hpointer,k,hk,hle,hr⟩
  · intro place stream id other t e hp ht he
    obtain ⟨u,hu,-,-,⟨hended,-⟩ | ⟨hpointer,hopen,hended⟩⟩ := hcases ht
    · exact h.left place stream id other u e hp hu (hended.symm.trans he)
    · have hlen : e=s.device.program.length := Option.some.inj (he.symm.trans hended)
      obtain ⟨v,hv,hother,-⟩ := h.entered place stream id other hp
      have hsame : other=pointer := by
        rw [←hother,Option.some.inj (hv.symm.trans hu),hpointer]
      have hplace : place < s.device.program.length := (List.getElem?_eq_some_iff.mp hp).1
      have hon : OnStream s.device.program place stream := by rw [OnStream,hp,Option.map_some]
      rcases hg id place stream u hu hopen (hsame ▸ hp) with hhome | hwait
      · exact ⟨place,hhome ▸ hon,hlen ▸ hplace,Or.inl rfl⟩
      · obtain ⟨waited,recorded,hwaited,hawaited,hrecorded,hle⟩ := hwait
        obtain ⟨x,hx,-⟩ := Option.map_eq_some_iff.mp hwaited
        refine ⟨waited,hwaited,hlen ▸ (List.getElem?_eq_some_iff.mp hx).1,Or.inr ?_⟩
        rcases Nat.lt_or_eq_of_le hle with hlt | rfl
        · exact (before_of_stream hlt hon hrecorded).trans (before_of_awaited hawaited)
        · exact before_of_awaited hawaited
  · intro id t ht
    obtain ⟨u,hu,hpointer,hbegun,hcase⟩ := hcases ht
    obtain ⟨m,hm,hmalloc,hfrees⟩ := h.obtained id u hu
    refine ⟨m,hbegun ▸ hm,hpointer ▸ hmalloc,fun f hf => ?_⟩
    rcases hfrees f (hpointer ▸ hf) with hlt | ⟨e,he,hle⟩
    · exact Or.inl hlt
    · rcases hcase with ⟨hended,-⟩ | ⟨-,hopen,-⟩
      · exact Or.inr ⟨e,hended.trans he,hle⟩
      · exact absurd (hopen.symm.trans he) (by simp only [reduceCtorEq,not_false_eq_true])

/-- Taking the blocks off the free lists keeps everything. -/
theorem Kept.trimmed (h : Kept home s) : Kept home { s with
    episode := s.episode.apply .trim
    returning := s.episode.pool.trim.1.map Prod.fst } := by
  have hsub : ∀ block∈(s.episode.apply .trim).outstanding,
      block∈s.episode.outstanding ∧ block∉s.episode.pool.cached := by
    intro block hm
    obtain ⟨hin,hnot⟩ := List.mem_filter.mp hm
    exact ⟨hin,of_decide_eq_true hnot⟩
  have hbase : Kept home {s with episode := s.episode.apply .trim} :=
    h.rebooked (booked_trim h.booked) (by rw [apply_minBlockBytes]; exact h.floor)
      (fun _ hl => hl) fun block hm => (hsub block hm).1
  refine ⟨hbase.booked,hbase.floor,hbase.coherent,hbase.held,hbase.within,hbase.apart,
    hbase.entered,hbase.left,hbase.frees,hbase.obtained,hbase.owned,fun pointer hm hin => ?_⟩
  obtain ⟨cached,hc,rfl⟩ := List.mem_map.mp hm
  obtain ⟨block,hblock,hsame⟩ := List.mem_map.mp hin
  obtain ⟨hout,hnot⟩ := hsub block hblock
  have he : block=cached := List.inj_on_of_nodup_map h.booked.distinct hout
    (cached_apart h.booked hc).1 hsame
  exact hnot (he ▸ hc)

/-- Every step that keeps the order by events keeps everything. -/
theorem Kept.step (h : Kept home s) {a : Action P S E} (hg : Ordered home s a)
    (ht : steps home s a t) : Kept home t := by
  cases a with
  | allocate bytes answer =>
    obtain ⟨hr,hp,rfl⟩ := ht
    exact h.allocated hr hp
  | deallocate pointer =>
    obtain ⟨-,-,rfl⟩ := ht
    exact h.deallocated hg
  | trim =>
    obtain ⟨-,rfl⟩ := ht
    exact h.trimmed
  | freeAsync =>
    obtain ⟨pointer,rest,hr,rfl⟩ := ht
    have hback : pointer∉s.episode.outstanding.map Prod.fst :=
      h.returned pointer (hr ▸ List.mem_cons_self)
    have hk : Kept home (s.issued (⟨home,.work (.freeAsync pointer)⟩ :
        Issued S E (Access P))) := by
      refine h.issued (fun stream id other hc => ?_) (fun stream other hc => ?_)
      · cases hc
      · obtain ⟨hs,hcommand⟩ := Issued.mk.inj hc
        have hp := Access.freeAsync.inj (Command.work.inj hcommand)
        exact ⟨hs.symm,hp ▸ hback⟩
    exact ⟨hk.booked,hk.floor,hk.coherent,hk.held,hk.within,hk.apart,hk.entered,hk.left,hk.frees,
      hk.obtained,hk.owned,fun other ho => h.returned other (hr ▸ List.mem_cons_of_mem _ ho)⟩
  | use id stream =>
    obtain ⟨u,hu,hopen,rfl⟩ := ht
    refine h.issued (fun σ other pointer hc => ?_) (fun σ other hc => ?_)
    · obtain ⟨rfl,hcommand⟩ := Issued.mk.inj hc
      obtain ⟨rfl,rfl⟩ := Access.use.inj (Command.work.inj hcommand)
      refine ⟨u,hu,rfl,hopen,?_⟩
      have hlast : OnStream (StreamOrdering.issue s.device
          (⟨stream,.work (.use id u.pointer)⟩ : Issued S E (Access P))).program
            s.device.program.length stream := by
        rw [OnStream,StreamOrdering.issue,List.getElem?_concat_length,Option.map_some]
      rcases hg with rfl | hwait
      · exact ⟨s.device.program.length,hlast,(h.within id u hu).1,Or.inl rfl⟩
      · obtain ⟨waited,recorded,v,hv,hwaited,hawaited,hrecorded,hle⟩ := hwait
        obtain ⟨x,hx,hxs⟩ := Option.map_eq_some_iff.mp hwaited
        obtain ⟨y,hy,hys⟩ := Option.map_eq_some_iff.mp hrecorded
        have hlt := (List.getElem?_eq_some_iff.mp hx).1
        refine ⟨recorded,?_,Option.some.inj (hv.symm.trans hu) ▸ hle,Or.inr ?_⟩
        · rw [OnStream,getElem?_issue _ s.device hy,Option.map_some,hys]
        · refine (before_issue _ s.device (before_of_awaited hawaited)).trans
            (before_of_stream hlt ?_ hlast)
          rw [getElem?_issue _ s.device hx,Option.map_some,hxs]
    · cases hc
  | record stream event =>
    subst ht
    refine h.issued (fun σ other pointer hc => ?_) (fun σ other hc => ?_) <;> cases hc
  | wait stream event =>
    subst ht
    refine h.issued (fun σ other pointer hc => ?_) (fun σ other hc => ?_) <;> cases hc
  | advance place =>
    obtain ⟨hr,rfl⟩ := ht
    exact ⟨h.booked,h.floor,h.coherent.finish hr,h.held,h.within,h.apart,h.entered,h.left,
      h.frees,h.obtained,h.owned,h.returned⟩

end Steps

variable {home : S} {s : Usage P S E} {minBlockBytes : ℕ}

/-- In every run that keeps the order by events everything is kept. -/
theorem reaches_kept
    (h : ((pooled P S E home minBlockBytes).guarded (Ordered home)).Reaches s) : Kept home s := by
  refine h.invariant (P := Kept home) (fun s hs => ?_) (fun s a t hk ht => hk.step ht.1 ht.2)
  obtain ⟨pool,hc,rfl⟩ := hs
  have hstart : (episodes P minBlockBytes).Reaches {pool := pool} := .start ⟨pool,hc,rfl⟩
  obtain ⟨hmin,hb⟩ := reaches_booked hstart
  have hnil : ∀ {place : ℕ} {x : Issued S E (Access P)},
      ([] : List (Issued S E (Access P)))[place]?=some x → False := by
    intro place x hx
    rw [List.getElem?_nil] at hx
    exact absurd hx.symm (Option.some_ne_none x)
  have hnone : ∀ {id : ℕ} {t : Tenancy P}, ([] : List (Tenancy P))[id]?=some t → False := by
    intro id t ht
    rw [List.getElem?_nil] at ht
    exact absurd ht.symm (Option.some_ne_none t)
  exact {
    booked := hb
    floor := hmin ▸ bitCeil_pow minBlockBytes
    coherent := coherent_nil
    held := fun _ _ ht => (hnone ht).elim
    within := fun _ _ ht => (hnone ht).elim
    apart := fun _ _ _ _ _ ht => (hnone ht).elim
    entered := fun _ _ _ _ hp => (hnil hp).elim
    left := fun _ _ _ _ _ _ hp => (hnil hp).elim
    frees := fun _ _ _ hp => (hnil hp).elim
    obtained := fun _ _ ht => (hnone ht).elim
    owned := fun _ hm => absurd hm List.not_mem_nil
    returned := fun _ hm => absurd hm List.not_mem_nil}

/-- In every run in which the holders keep the order by events, whatever streams they use
and however the device interleaves them: a block that was handed on, from the pool's
cache or by the driver, is not used by its new holder before the device is through with
every use by the old one; and every use finds its block obtained from the driver, and
not given back before the use has finished. -/
theorem tenancies_isolated
    (h : ((pooled P S E home minBlockBytes).guarded (Ordered home)).Reaches s) :
    (∀ first second earlier later pointer old new, old < new →
      s.device.program[first]?=some ⟨earlier,.work (.use old pointer)⟩ →
      s.device.program[second]?=some ⟨later,.work (.use new pointer)⟩ →
      s.device.done second=true → s.device.done first=true) ∧
    ∀ place stream id pointer,
      s.device.program[place]?=some ⟨stream,.work (.use id pointer)⟩ →
      ∃ obtained : ℕ, s.device.program[obtained]?=some ⟨home,.work (.mallocAsync pointer)⟩ ∧
        (s.device.done place=true → s.device.done obtained=true) ∧
        ∀ back backStream,
          s.device.program[back]?=some ⟨backStream,.work (.freeAsync pointer)⟩ →
          (s.device.done obtained=true → s.device.done back=true) ∨
            (s.device.done back=true → s.device.done place=true) := by
  have hk := reaches_kept h
  have hon : ∀ {place : ℕ} {stream : S} {command : Command E (Access P)},
      s.device.program[place]?=some ⟨stream,command⟩ → OnStream s.device.program place stream := by
    intro place stream command hp
    rw [OnStream,hp,Option.map_some]
  have hdone : ∀ {a b : ℕ}, Reached s.device.program a b → s.device.done b=true →
      s.device.done a=true := by
    intro a b hr hb
    rcases hr with rfl | hbefore
    · exact hb
    · exact hk.coherent.before hbefore hb
  have hhome : ∀ {a b : ℕ}, OnStream s.device.program a home → OnStream s.device.program b home →
      a < b → s.device.done b=true → s.device.done a=true := fun ha hb hlt =>
    hk.coherent.before (before_of_stream hlt ha hb)
  refine ⟨?_,fun place stream id pointer hp => ?_⟩
  · intro first second earlier later pointer old new hlt hf hs hd
    obtain ⟨t,ht,htp,-⟩ := hk.entered first earlier old pointer hf
    obtain ⟨u,hu,hup,k,hkon,hle,hreached⟩ := hk.entered second later new pointer hs
    obtain ⟨e,he,hbegun⟩ := hk.apart old new t u hlt ht hu (htp.trans hup.symm)
    obtain ⟨m,hmon,hme,hmreached⟩ := hk.left first earlier old pointer t e hf ht he
    exact hdone hmreached (hhome hmon hkon (by omega) (hdone hreached hd))
  · obtain ⟨t,ht,htp,k,hkon,hle,hreached⟩ := hk.entered place stream id pointer hp
    obtain ⟨m,hm,hmalloc,hfrees⟩ := hk.obtained id t ht
    rw [htp] at hmalloc hfrees
    refine ⟨m,hmalloc,fun hd => hhome (hon hmalloc) hkon (by omega) (hdone hreached hd),?_⟩
    intro back backStream hback
    have hstream := hk.frees back backStream pointer hback
    rw [hstream] at hback
    rcases hfrees back hback with hlt | ⟨e,he,hle'⟩
    · exact Or.inl (hhome (hon hback) (hon hmalloc) hlt)
    · obtain ⟨j,hjon,hje,hjreached⟩ := hk.left place stream id pointer t e hp ht he
      exact Or.inr fun hd => hdone hjreached (hhome hjon (hon hback) (by omega) hd)

/-- A run goes on by a step that keeps the order by events. -/
theorem reaches_step {t : Usage P S E} (a : Action P S E)
    (h : ((pooled P S E home minBlockBytes).guarded (Ordered home)).Reaches s)
    (hg : Ordered home s a) (ht : steps home s a t) :
    ((pooled P S E home minBlockBytes).guarded (Ordered home)).Reaches t := h.step ⟨hg,ht⟩

/-- Two holders of one block, of whom the first used it on the pool's stream and the
second does so on another, behind an event. -/
theorem handed_on : ∃ s : Usage ℕ Bool Unit,
    ((pooled ℕ Bool Unit true 256).guarded (Ordered true)).Reaches s ∧
      s.device.program[1]?=some ⟨true,.work (.use 0 7)⟩ ∧
      s.device.program[4]?=some ⟨false,.work (.use 1 7)⟩ ∧
      (s.device.done 4=true → s.device.done 1=true) := by
  have hstart : ((pooled ℕ Bool Unit true 256).guarded (Ordered true)).Reaches
      {episode := {pool := {minBlockBytes := 256}}} := .start ⟨_,rfl,rfl⟩
  have hfirst := reaches_step (.allocate 256 (some 7)) hstart trivial
    (And.intro rfl (And.intro (fun _ => List.not_mem_nil) rfl))
  have hused := reaches_step (.use 0 true) hfirst (Or.inl rfl)
    (Exists.intro _ (And.intro rfl (And.intro rfl rfl)))
  have hback := reaches_step (.deallocate 7) hused
    (fun id place stream tenancy _ _ hp => by
      rcases place with _ | _ | place
      · obtain ⟨-,hc⟩ := Issued.mk.inj (Option.some.inj hp)
        exact absurd (Command.work.inj hc) (by simp only [reduceCtorEq,not_false_eq_true])
      · exact Or.inl (Issued.mk.inj (Option.some.inj hp)).1.symm
      · exact absurd hp.symm (Option.some_ne_none _))
    (And.intro rfl (And.intro ((AList.mem_insert _).mpr (Or.inl rfl)) rfl))
  have hsecond := reaches_step (.allocate 256 none) hback trivial
    (And.intro rfl (And.intro trivial rfl))
  have hrecord := reaches_step (.record true ()) hsecond trivial rfl
  have hwait := reaches_step (.wait false ()) hrecord trivial rfl
  have hother := reaches_step (.use 1 false) hwait
    (Or.inr ⟨3,2,_,rfl,rfl,rfl,rfl,le_rfl⟩) (Exists.intro _ (And.intro rfl (And.intro rfl rfl)))
  exact ⟨_,hother,rfl,rfl,(tenancies_isolated hother).1 1 4 true false 7 0 1 (by decide) rfl rfl⟩

end CudaForge.PooledStreams
