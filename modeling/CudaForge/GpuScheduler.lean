import CudaForge.StreamOrdering
import CudaForge.TransitionRuns
import Mathlib.Data.BitVec

/-!
# The scheduler of GPU streams

`GpuScheduler` hands out its streams in turn, each with the event of the same
index. Any number of threads hold leases and issue copies, kernels, records and
waits, one call of the driver after another in any order, while the device works
through the streams. A copy is counted after the driver has accepted it, when
its thread gets the lock, so a reader can be ahead of the counters.
-/

namespace CudaForge.GpuScheduler

open TransitionRuns StreamOrdering

/-- `StreamStats`. -/
@[ext] structure StreamStats where
  /-- Calls of `note_dispatch`. -/
  batches_dispatched : BitVec 64
  /-- Bytes of `copy_to_device`. -/
  bytes_to_device : BitVec 64
  /-- Bytes of `copy_to_host`. -/
  bytes_to_host : BitVec 64
  deriving DecidableEq,Repr

instance : Zero StreamStats := ⟨⟨0,0,0⟩⟩

instance : Add StreamStats :=
  ⟨fun a b => ⟨a.batches_dispatched+b.batches_dispatched,a.bytes_to_device+b.bytes_to_device,
    a.bytes_to_host+b.bytes_to_host⟩⟩

/-- Counters add up in any order. -/
instance : AddCommMonoid StreamStats where
  add_assoc a b c := StreamStats.ext (add_assoc _ _ _) (add_assoc _ _ _) (add_assoc _ _ _)
  zero_add a := StreamStats.ext (zero_add _) (zero_add _) (zero_add _)
  add_zero a := StreamStats.ext (add_zero _) (add_zero _) (add_zero _)
  add_comm a b := StreamStats.ext (add_comm _ _) (add_comm _ _) (add_comm _ _)
  nsmul := nsmulRec

/-- `SchedulerStats`. -/
structure SchedulerStats where
  /-- The number of streams. -/
  stream_count : ℕ
  /-- The three totals. -/
  total : StreamStats
  /-- The counters of each stream. -/
  per_stream : List StreamStats

/-- What a thread issues to its stream. -/
inductive Work where
  /-- `cudaMemcpyAsync` to the device. -/
  | toDevice (bytes : BitVec 64)
  /-- `cudaMemcpyAsync` to the host. -/
  | toHost (bytes : BitVec 64)
  /-- A kernel. -/
  | kernel
  deriving DecidableEq,Repr

/-- What a copy adds to the counters of its stream. -/
def Work.tally : Work → StreamStats
  | .toDevice bytes => ⟨0,bytes,0⟩
  | .toHost bytes => ⟨0,0,bytes⟩
  | .kernel => 0

/-- What a call of `note_dispatch` adds. -/
def dispatchTally : StreamStats := ⟨1,0,0⟩

/-- The scheduler, its leases and the device. -/
structure Scheduler where
  /-- `streams_.size()`. -/
  stream_count : ℕ
  /-- `next_stream_`. -/
  next_stream : BitVec 64
  /-- `stats_`. -/
  stats : List StreamStats
  /-- The index of every lease handed out so far, in order. -/
  leases : List ℕ
  /-- Copies that the driver has accepted and whose threads wait for the lock. -/
  counting : List (ℕ×StreamStats)
  /-- The streams of the calls of `note_dispatch` so far. -/
  noted : List ℕ
  /-- What was issued, and what of it has finished. -/
  device : Device ℕ ℕ Work

/-- What a thread or the device does. A call of the driver may be refused: it then
raises and has done nothing. -/
inductive Call where
  /-- `acquire`. -/
  | acquire
  /-- `copy_to_device`, up to the lock. -/
  | copyToDevice (lease : ℕ) (bytes : BitVec 64) (accepted : Bool)
  /-- `copy_to_host`, up to the lock. -/
  | copyToHost (lease : ℕ) (bytes : BitVec 64) (accepted : Bool)
  /-- The thread of an accepted copy gets the lock. -/
  | count (entry : ℕ)
  /-- A kernel is launched on the lease's stream. -/
  | launch (lease : ℕ)
  /-- `record_completion`. -/
  | recordCompletion (lease : ℕ) (accepted : Bool)
  /-- `chain`. -/
  | chain (waiter signaller : ℕ) (accepted : Bool)
  /-- `note_dispatch`. -/
  | noteDispatch (lease : ℕ)
  /-- The device finishes a command. -/
  | advance (place : ℕ)

/-- A new scheduler. -/
def create (stream_count : ℕ) : Except String Scheduler :=
  if stream_count=0 then .error "GpuScheduler requires at least one stream"
  else .ok ⟨stream_count,0,List.replicate stream_count 0,[],[],[],⟨[],fun _ => false⟩⟩

/-- `acquire`: the next stream in turn. -/
def Scheduler.acquire (s : Scheduler) : Scheduler :=
  { s with next_stream := s.next_stream+1
           leases := s.leases++[s.next_stream.toNat%s.stream_count] }

/-- A command is issued to a stream. -/
def Scheduler.issued (s : Scheduler) (lease : ℕ) (command : Command ℕ Work) : Scheduler :=
  { s with device := issue s.device ⟨lease,command⟩ }

/-- The part of `copy_to_device` and `copy_to_host` before the lock: nothing is done
for no bytes, and nothing when the driver refuses. -/
def Scheduler.copy (s : Scheduler) (lease : ℕ) (bytes : BitVec 64) (work : Work)
    (accepted : Bool) : Scheduler :=
  if bytes=0 then s
  else if accepted then { s.issued lease (.work work) with
    counting := s.counting++[(lease,work.tally)] }
  else s

/-- Counters are added to those of a stream. -/
def Scheduler.add (s : Scheduler) (lease : ℕ) (tally : StreamStats) : Scheduler :=
  { s with stats := s.stats.modify lease (·+tally) }

/-- One step. Threads use the leases they were handed. -/
def step (s : Scheduler) : Call → Option Scheduler
  | .acquire => some s.acquire
  | .copyToDevice lease bytes accepted =>
    if lease∈s.leases then some (s.copy lease bytes (.toDevice bytes) accepted) else none
  | .copyToHost lease bytes accepted =>
    if lease∈s.leases then some (s.copy lease bytes (.toHost bytes) accepted) else none
  | .count entry => (s.counting[entry]?).map fun c =>
    { s.add c.1 c.2 with counting := s.counting.eraseIdx entry }
  | .launch lease => if lease∈s.leases then some (s.issued lease (.work .kernel)) else none
  | .recordCompletion lease accepted =>
    if lease∈s.leases then some (if accepted then s.issued lease (.record lease) else s)
    else none
  | .chain waiter signaller accepted =>
    if waiter∈s.leases ∧ signaller∈s.leases then
      some (if accepted then s.issued waiter (.wait signaller) else s)
    else none
  | .noteDispatch lease =>
    if lease∈s.leases then some { s.add lease dispatchTally with noted := s.noted++[lease] }
    else none
  | .advance place =>
    if Ready s.device place then some { s with device := finish s.device place } else none

/-- `stats`. -/
def Scheduler.snapshot (s : Scheduler) : SchedulerStats :=
  ⟨s.stream_count,s.stats.foldl (·+·) 0,s.stats⟩

/-- The runs of a scheduler, in whatever order its threads and the device move. -/
def schedulerMachine : Machine Scheduler Call where
  starts s := ∃ stream_count, create stream_count=.ok s
  steps s call t := step s call=some t

/-- The command at a place was issued to a stream. -/
def IssuedTo (s : Scheduler) (stream place : ℕ) : Prop :=
  s.device.program[place]?.map Issued.stream=some stream

/-- What has been issued is within reach of the leases, an event is recorded only on
its own stream, and what has finished is closed under what comes before. -/
structure Ordered (s : Scheduler) : Prop where
  /-- There is a stream. -/
  pos : 0 < s.stream_count
  /-- A lease is of a stream. -/
  leases : ∀ lease∈s.leases, lease < s.stream_count
  /-- A command was issued to a stream. -/
  streams : ∀ (place stream : ℕ), IssuedTo s stream place → stream < s.stream_count
  /-- The event of an index is recorded on the stream of that index. -/
  records : ∀ (place event stream : ℕ),
    s.device.program[place]?=some ⟨stream,.record event⟩ → stream=event
  /-- Nothing finishes out of order. -/
  coherent : Coherent s.device

section Ordering

variable {s t : Scheduler} {lease signaller waiter recorded waited first second place : ℕ}
  {command : Command ℕ Work} {call : Call}

/-- A command of a longer program is one of the program, or the new one. -/
theorem getElem?_issue {c : Issued ℕ ℕ Work}
    (h : (issue s.device ⟨lease,command⟩).program[place]?=some c) :
    s.device.program[place]?=some c ∨ c=⟨lease,command⟩ := by
  simp only [issue] at h
  rcases Nat.lt_trichotomy place s.device.program.length with hlt | he | hgt
  · rw [List.getElem?_append_left hlt] at h
    exact Or.inl h
  · rw [he,List.getElem?_concat_length] at h
    exact Or.inr (Option.some.inj h).symm
  · rw [List.getElem?_eq_none (by rw [List.length_append,List.length_singleton]; omega)] at h
    exact absurd h.symm (Option.some_ne_none c)

/-- A command is issued to a lease's stream that does not record another's event. -/
theorem Ordered.issued (h : Ordered s) (hl : lease∈s.leases)
    (hc : ∀ event, command=.record event → lease=event) : Ordered (s.issued lease command) := by
  refine ⟨h.pos,h.leases,fun place stream hp => ?_,fun place event stream hp => ?_,
    h.coherent.issue _⟩
  · obtain ⟨c,hc,hs⟩ := Option.map_eq_some_iff.mp hp
    rcases getElem?_issue hc with hold | hnew
    · exact h.streams place stream (Option.map_eq_some_iff.mpr ⟨c,hold,hs⟩)
    · rw [←hs,hnew]
      exact h.leases lease hl
  · rcases getElem?_issue hp with hold | hnew
    · exact h.records place event stream hold
    · exact (congrArg Issued.stream hnew).trans (hc event (congrArg Issued.command hnew).symm)

/-- Copying keeps the order. -/
theorem Ordered.copy (h : Ordered s) (hl : lease∈s.leases) (bytes : BitVec 64) (work : Work)
    (accepted : Bool) : Ordered (s.copy lease bytes work accepted) := by
  rw [Scheduler.copy]
  split
  · exact h
  · split
    · have hi : Ordered (s.issued lease (.work work)) := h.issued hl (fun event he => by
        exact absurd he (by simp only [reduceCtorEq,not_false_eq_true]))
      exact ⟨hi.pos,hi.leases,hi.streams,hi.records,hi.coherent⟩
    · exact h

/-- Every step keeps the order. -/
theorem Ordered.step (h : Ordered s) (hs : step s call=some t) : Ordered t := by
  cases call with
  | acquire =>
    rw [←Option.some.inj hs]
    refine ⟨h.pos,fun lease hl => ?_,h.streams,h.records,h.coherent⟩
    rcases List.mem_append.mp hl with hl | hl
    · exact h.leases lease hl
    · rw [List.mem_singleton.mp hl]
      exact Nat.mod_lt _ h.pos
  | copyToDevice lease bytes accepted =>
    obtain ⟨hl,he⟩ := Option.ite_none_right_eq_some.mp hs
    exact Option.some.inj he ▸ h.copy hl bytes _ accepted
  | copyToHost lease bytes accepted =>
    obtain ⟨hl,he⟩ := Option.ite_none_right_eq_some.mp hs
    exact Option.some.inj he ▸ h.copy hl bytes _ accepted
  | count entry =>
    obtain ⟨c,_,he⟩ := Option.map_eq_some_iff.mp hs
    rw [←he]
    exact ⟨h.pos,h.leases,h.streams,h.records,h.coherent⟩
  | launch lease =>
    obtain ⟨hl,he⟩ := Option.ite_none_right_eq_some.mp hs
    exact Option.some.inj he ▸ h.issued hl (fun event hr => by
      exact absurd hr (by simp only [reduceCtorEq,not_false_eq_true]))
  | recordCompletion lease accepted =>
    obtain ⟨hl,he⟩ := Option.ite_none_right_eq_some.mp hs
    rw [←Option.some.inj he]
    split
    · exact h.issued hl (fun event hr => Command.record.inj hr)
    · exact h
  | chain waiter signaller accepted =>
    obtain ⟨⟨hl,_⟩,he⟩ := Option.ite_none_right_eq_some.mp hs
    rw [←Option.some.inj he]
    split
    · exact h.issued hl (fun event hr => by
        exact absurd hr (by simp only [reduceCtorEq,not_false_eq_true]))
    · exact h
  | noteDispatch lease =>
    obtain ⟨_,he⟩ := Option.ite_none_right_eq_some.mp hs
    rw [←Option.some.inj he]
    exact ⟨h.pos,h.leases,h.streams,h.records,h.coherent⟩
  | advance place =>
    obtain ⟨hr,he⟩ := Option.ite_none_right_eq_some.mp hs
    rw [←Option.some.inj he]
    exact ⟨h.pos,h.leases,h.streams,h.records,h.coherent.finish hr⟩

/-- A new scheduler has a stream, and everything else at its start. -/
theorem starts_eq (h : schedulerMachine.starts s) :
    0 < s.stream_count ∧ s=⟨s.stream_count,0,List.replicate s.stream_count 0,[],[],[],
      ⟨[],fun _ => false⟩⟩ := by
  obtain ⟨stream_count,hc⟩ := h
  rw [create] at hc
  split at hc
  · exact absurd hc (by simp only [reduceCtorEq,not_false_eq_true])
  · next hn =>
    rw [←Except.ok.inj hc]
    exact ⟨Nat.pos_of_ne_zero hn,rfl⟩

/-- The order holds in every run. -/
theorem reaches_ordered (h : schedulerMachine.Reaches s) : Ordered s := by
  refine h.invariant (P := Ordered) ?_ (fun s a t hs ht => hs.step ht)
  intro s hs
  obtain ⟨hpos,he⟩ := starts_eq hs
  rw [he]
  refine ⟨hpos,fun lease hl => absurd hl List.not_mem_nil,fun place stream hp => ?_,
    fun place event stream hp => ?_,coherent_nil⟩
  · exact absurd hp.symm (Option.some_ne_none _)
  · exact absurd hp.symm (Option.some_ne_none _)

/-- In every run, however the calls of the threads and the work of the device
interleave: what one lease's stream was issued finishes in the order of its issue;
and when one lease's completion was recorded and another's stream was then made to
wait for it, nothing issued to the waiter after that has finished before everything
that the signaller's stream was issued up to the record, also when completions of
the same stream were recorded again in between. -/
theorem chain_orders (h : schedulerMachine.Reaches s)
    (hd : s.device.done second=true) :
    (first < second → IssuedTo s signaller first → IssuedTo s signaller second →
      s.device.done first=true) ∧
    (s.device.program[recorded]?=some ⟨signaller,.record signaller⟩ →
      s.device.program[waited]?=some ⟨waiter,.wait signaller⟩ → recorded < waited →
      IssuedTo s signaller first → first ≤ recorded →
      IssuedTo s waiter second → waited < second → s.device.done first=true) := by
  have ho := reaches_ordered h
  constructor
  · intro hlt hf hs
    exact ho.coherent.before (before_of_stream hlt hf hs) hd
  · intro hr hw hrw hf hfr hs hws
    refine ho.coherent.before (before_of_wait (fun place stream hp => ?_) hr hw hrw hf hfr hs hws)
      hd
    exact ho.records place signaller stream hp

/-- In every run, whichever streams were made to wait for which: as long as not all
streams are complete the device has a command that it can finish, each one that it
finishes leaves one fewer, and when none is left all streams are complete. So the
streams drain, and `synchronize_all` returns, once nothing more is issued. -/
theorem streams_drain (h : schedulerMachine.Reaches s) :
    ((∃ stream < s.stream_count, complete s.device stream=false) ↔
      ∃ place t, step s (.advance place)=some t) ∧
    (∀ place t, step s (.advance place)=some t →
      unfinished t.device+1=unfinished s.device) ∧
    (unfinished s.device=0 ↔ ∀ stream < s.stream_count, complete s.device stream=true) := by
  have ho := reaches_ordered h
  have hzero : unfinished s.device=0 ↔
      ∀ stream < s.stream_count, complete s.device stream=true := by
    rw [unfinished_eq_zero]
    constructor
    · intro hall stream _
      refine complete_iff.mpr fun place hp => hall place ?_
      obtain ⟨c,hc,_⟩ := Option.map_eq_some_iff.mp hp
      exact (List.getElem?_eq_some_iff.mp hc).1
    · intro hall place hlt
      have hp : IssuedTo s s.device.program[place].stream place := by
        rw [IssuedTo,List.getElem?_eq_getElem hlt,Option.map_some]
      exact complete_iff.mp (hall _ (ho.streams place _ hp)) place hp
  refine ⟨⟨?_,?_⟩,?_,hzero⟩
  · rintro ⟨stream,hlt,hc⟩
    have hne : ∃ place < s.device.program.length, s.device.done place=false := by
      by_contra hn
      have hall : ∀ place < s.device.program.length, s.device.done place=true := by
        intro place hp
        by_contra hd
        exact hn ⟨place,hp,Bool.eq_false_of_not_eq_true hd⟩
      have htrue := hzero.mp (unfinished_eq_zero.mpr hall) stream hlt
      exact Bool.false_ne_true (hc.symm.trans htrue)
    obtain ⟨place,hr⟩ := exists_ready hne
    exact ⟨place,_,if_pos hr⟩
  · rintro ⟨place,t,hs⟩
    obtain ⟨hr,_⟩ := Option.ite_none_right_eq_some.mp hs
    by_contra hn
    have hall : ∀ stream < s.stream_count, complete s.device stream=true := by
      intro stream hlt
      by_contra hc
      exact hn ⟨stream,hlt,Bool.eq_false_of_not_eq_true hc⟩
    have hdone := unfinished_eq_zero.mp (hzero.mpr hall) place hr.1
    exact Bool.false_ne_true (hr.2.1.symm.trans hdone)
  · intro place t hs
    obtain ⟨hr,he⟩ := Option.ite_none_right_eq_some.mp hs
    rw [←Option.some.inj he]
    exact unfinished_finish hr

end Ordering

section Counting

variable {s t : Scheduler} {lease index : ℕ} {tally : StreamStats} {call : Call}

/-- What a command adds to the counters. -/
def commandTally : Command ℕ Work → StreamStats
  | .work work => work.tally
  | _ => 0

/-- What commands add to the counters, by stream. -/
def tallies (program : List (Issued ℕ ℕ Work)) : List (ℕ×StreamStats) :=
  program.map fun c => (c.stream,commandTally c.command)

/-- What calls of `note_dispatch` add. -/
def dispatches (noted : List ℕ) : List (ℕ×StreamStats) := noted.map fun i => (i,dispatchTally)

/-- The sum of a share of everything that is added. -/
def summed (share : ℕ×StreamStats → StreamStats) (added : List (ℕ×StreamStats)) : StreamStats :=
  (added.map share).sum

/-- The share of one stream. -/
def onStream (index : ℕ) (c : ℕ×StreamStats) : StreamStats := if c.1=index then c.2 else 0

/-- One more is added. -/
theorem summed_concat (share : ℕ×StreamStats → StreamStats) (added : List (ℕ×StreamStats))
    (c : ℕ×StreamStats) : summed share (added++[c])=summed share added+share c := by
  rw [summed,summed,List.map_append,List.sum_append,List.map_singleton,List.sum_singleton]

/-- One is taken out. -/
theorem summed_eraseIdx (share : ℕ×StreamStats → StreamStats) {added : List (ℕ×StreamStats)}
    {entry : ℕ} {c : ℕ×StreamStats} (h : added[entry]?=some c) :
    summed share (added.eraseIdx entry)+share c=summed share added := by
  induction added generalizing entry with
  | nil => exact absurd h.symm (Option.some_ne_none c)
  | cons first rest ih =>
    cases entry with
    | zero =>
      rw [List.getElem?_cons_zero,Option.some.injEq] at h
      rw [h,List.eraseIdx_cons_zero,summed,summed,List.map_cons,List.sum_cons,add_comm]
    | succ entry =>
      have hrest := ih (by rwa [List.getElem?_cons_succ] at h)
      rw [summed,summed] at hrest
      rw [List.eraseIdx_cons_succ,summed,summed,List.map_cons,List.sum_cons,add_assoc,hrest,
        List.map_cons,List.sum_cons]

/-- The counters of one stream add to the sum of all. -/
theorem sum_modify (stats : List StreamStats) (h : lease < stats.length) :
    (stats.modify lease (·+tally)).sum=stats.sum+tally := by
  induction stats generalizing lease with
  | nil => exact absurd h (Nat.not_lt_zero _)
  | cons first rest ih =>
    cases lease with
    | zero => rw [List.modify_zero_cons,List.sum_cons,List.sum_cons,add_right_comm]
    | succ lease =>
      rw [List.modify_succ_cons,List.sum_cons,List.sum_cons,
        ih (Nat.lt_of_succ_lt_succ h),add_assoc]

/-- What was issued, by copies and calls of `note_dispatch`. -/
def earned (share : ℕ×StreamStats → StreamStats) (s : Scheduler) : StreamStats :=
  summed share (tallies s.device.program)+summed share (dispatches s.noted)

/-- The counters, with what threads have yet to count, are what was issued. -/
structure Counted (s : Scheduler) : Prop where
  /-- There are counters for every stream. -/
  length : s.stats.length=s.stream_count
  /-- What is yet to be counted is of a stream. -/
  streams : ∀ c∈s.counting, c.1 < s.stream_count
  /-- The counters of each stream. -/
  each : ∀ index stats, s.stats[index]?=some stats →
    stats+summed (onStream index) s.counting=earned (onStream index) s
  /-- The counters of all streams. -/
  all : s.stats.sum+summed Prod.snd s.counting=earned Prod.snd s

/-- What a command adds is earned when it is issued. -/
theorem earned_issued (share : ℕ×StreamStats → StreamStats) (s : Scheduler) (lease : ℕ)
    (command : Command ℕ Work) : earned share (s.issued lease command)=
      earned share s+share (lease,commandTally command) := by
  simp only [earned,Scheduler.issued,issue,tallies,List.map_append,List.map_singleton]
  rw [summed_concat,add_right_comm]

/-- Work is issued to a stream, and it is yet to be counted. -/
theorem Counted.copy (h : Counted s) (hl : lease < s.stream_count) (bytes : BitVec 64) (work : Work)
    (accepted : Bool) : Counted (s.copy lease bytes work accepted) := by
  have hshare : ∀ share (stats : StreamStats),
      stats+summed share s.counting=earned share s →
      stats+summed share (s.counting++[(lease,work.tally)])=
        earned share (s.issued lease (.work work)) := by
    intro share stats hs
    rw [earned_issued,summed_concat,←add_assoc,hs]
    rfl
  rw [Scheduler.copy]
  split
  · exact h
  · split
    · refine ⟨h.length,fun c hc => ?_,fun index stats hs => ?_,?_⟩
      · rcases List.mem_append.mp hc with hc | hc
        · exact h.streams c hc
        · rw [List.mem_singleton.mp hc]
          exact hl
      · exact hshare (onStream index) stats (h.each index stats hs)
      · exact hshare Prod.snd s.stats.sum h.all
    · exact h

/-- Issuing what adds nothing keeps the count. -/
theorem Counted.issued (h : Counted s) {command : Command ℕ Work}
    (hc : commandTally command=0) : Counted (s.issued lease command) := by
  refine ⟨h.length,h.streams,fun index stats hs => ?_,?_⟩
  · rw [earned_issued,hc,onStream,ite_self,add_zero]
    exact h.each index stats hs
  · rw [earned_issued,hc,add_zero]
    exact h.all

/-- The counters of a stream after an addition. -/
theorem getElem?_add {stats : StreamStats} (h : (s.add lease tally).stats[index]?=some stats) :
    ∃ old, s.stats[index]?=some old ∧ stats=old+onStream index (lease,tally) := by
  simp only [Scheduler.add,List.getElem?_modify] at h
  obtain ⟨old,ho,he⟩ := Option.map_eq_some_iff.mp h
  refine ⟨old,ho,?_⟩
  rw [←he,onStream]
  split
  · rfl
  · exact (add_zero old).symm

/-- Every step keeps the count. -/
theorem Counted.step (h : Counted s) (ho : Ordered s)
    (hs : step s call=some t) : Counted t := by
  cases call with
  | acquire =>
    rw [←Option.some.inj hs]
    exact ⟨h.length,h.streams,h.each,h.all⟩
  | copyToDevice lease bytes accepted =>
    obtain ⟨hl,he⟩ := Option.ite_none_right_eq_some.mp hs
    exact Option.some.inj he ▸ h.copy (ho.leases lease hl) bytes _ accepted
  | copyToHost lease bytes accepted =>
    obtain ⟨hl,he⟩ := Option.ite_none_right_eq_some.mp hs
    exact Option.some.inj he ▸ h.copy (ho.leases lease hl) bytes _ accepted
  | count entry =>
    obtain ⟨c,hc,he⟩ := Option.map_eq_some_iff.mp hs
    have hmem : c∈s.counting := List.mem_of_getElem? hc
    have hlt : c.1 < s.stats.length := h.length ▸ h.streams c hmem
    rw [←he]
    refine ⟨?_,fun d hd => h.streams d (List.mem_of_mem_eraseIdx hd),
      fun index stats hi => ?_,?_⟩
    · simp only [Scheduler.add,List.length_modify,h.length]
    · obtain ⟨old,ho,hstats⟩ := getElem?_add hi
      have hleft := summed_eraseIdx (onStream index) hc
      calc stats+summed (onStream index) (s.counting.eraseIdx entry)
          = old+(summed (onStream index) (s.counting.eraseIdx entry)+onStream index c) := by
            rw [hstats,add_assoc,add_comm (onStream index _)]
        _ = earned (onStream index) s := by rw [hleft,h.each index old ho]
    · have hleft := summed_eraseIdx Prod.snd hc
      calc (s.stats.modify c.1 (·+c.2)).sum+summed Prod.snd (s.counting.eraseIdx entry)
          = s.stats.sum+(summed Prod.snd (s.counting.eraseIdx entry)+c.2) := by
            rw [sum_modify s.stats hlt,add_assoc,add_comm c.2]
        _ = earned Prod.snd s := by rw [hleft,h.all]
  | launch lease =>
    obtain ⟨_,he⟩ := Option.ite_none_right_eq_some.mp hs
    exact Option.some.inj he ▸ h.issued rfl
  | recordCompletion lease accepted =>
    obtain ⟨_,he⟩ := Option.ite_none_right_eq_some.mp hs
    rw [←Option.some.inj he]
    split
    · exact h.issued rfl
    · exact h
  | chain waiter signaller accepted =>
    obtain ⟨_,he⟩ := Option.ite_none_right_eq_some.mp hs
    rw [←Option.some.inj he]
    split
    · exact h.issued rfl
    · exact h
  | noteDispatch lease =>
    obtain ⟨hl,he⟩ := Option.ite_none_right_eq_some.mp hs
    have hlt : lease < s.stats.length := h.length ▸ ho.leases lease hl
    have hearned : ∀ share, earned share { s.add lease dispatchTally with
        noted := s.noted++[lease] }=earned share s+share (lease,dispatchTally) := by
      intro share
      simp only [earned,Scheduler.add,dispatches,List.map_append,List.map_singleton]
      rw [summed_concat,add_assoc]
    rw [←Option.some.inj he]
    refine ⟨?_,h.streams,fun index stats hi => ?_,?_⟩
    · simp only [Scheduler.add,List.length_modify,h.length]
    · obtain ⟨old,ho,hstats⟩ := getElem?_add hi
      rw [hearned,hstats,←h.each index old ho]
      exact add_right_comm _ _ _
    · rw [hearned,←h.all]
      exact (congrArg (·+_) (sum_modify s.stats hlt)).trans (add_right_comm _ _ _)
  | advance place =>
    obtain ⟨_,he⟩ := Option.ite_none_right_eq_some.mp hs
    rw [←Option.some.inj he]
    exact ⟨h.length,h.streams,h.each,h.all⟩

/-- The count holds in every run. -/
theorem reaches_counted (h : schedulerMachine.Reaches s) : Counted s := by
  have hboth : Ordered s ∧ Counted s := by
    refine h.invariant (P := fun s => Ordered s ∧ Counted s) ?_
      (fun s a t hs ht => ⟨hs.1.step ht,hs.2.step hs.1 ht⟩)
    intro s hs
    refine ⟨reaches_ordered (.start hs),?_⟩
    obtain ⟨_,he⟩ := starts_eq hs
    rw [he]
    refine ⟨List.length_replicate,fun c hc => absurd hc List.not_mem_nil,?_,?_⟩
    · intro index stats hi
      rw [List.eq_of_mem_replicate (List.mem_of_getElem? hi)]
      rfl
    · simp only [List.sum_replicate,smul_zero]
      rfl
  exact hboth.2

/-- In every run, at any moment of any interleaving: what `stats` reports, stream by
stream and in total, is what the accepted copies and the calls of `note_dispatch`
amount to, except for the copies whose threads have yet to get the lock. Nothing is
counted twice or lost, and a refused copy is not counted; the counters are words of
sixty-four bits. -/
theorem stats_counted (h : schedulerMachine.Reaches s) :
    s.snapshot.per_stream.length=s.snapshot.stream_count ∧
    s.snapshot.total+summed Prod.snd s.counting=earned Prod.snd s ∧
    ∀ index stats, s.snapshot.per_stream[index]?=some stats →
      stats+summed (onStream index) s.counting=earned (onStream index) s := by
  have hc := reaches_counted h
  refine ⟨hc.length,?_,hc.each⟩
  rw [←hc.all,List.sum_eq_foldl]
  rfl

end Counting

section Leases

variable {s t : Scheduler} {first second : ℕ} {call : Call}

/-- The leases go around the streams, as far as the counter goes. -/
structure Rotating (s : Scheduler) : Prop where
  /-- The counter counts the leases. -/
  ticket : s.next_stream=BitVec.ofNat 64 s.leases.length
  /-- The stream of each lease. -/
  leases : s.leases=(List.range s.leases.length).map (fun ticket => ticket%2^64%s.stream_count)

/-- Every step keeps the rotation. -/
theorem Rotating.step (h : Rotating s) (hs : step s call=some t) : Rotating t := by
  have hkept : ∀ {t : Scheduler}, t.next_stream=s.next_stream → t.leases=s.leases →
      t.stream_count=s.stream_count → Rotating t := by
    intro t hn hl hc
    refine ⟨by rw [hn,hl,h.ticket],?_⟩
    rw [hl,hc]
    exact h.leases
  have hcopy : ∀ (lease : ℕ) (bytes : BitVec 64) (work : Work) (accepted : Bool),
      Rotating (s.copy lease bytes work accepted) := by
    intro lease bytes work accepted
    rw [Scheduler.copy]
    split
    · exact h
    · split
      · exact hkept rfl rfl rfl
      · exact h
  cases call with
  | acquire =>
    rw [←Option.some.inj hs]
    refine ⟨?_,?_⟩
    · simp only [Scheduler.acquire,List.length_append,List.length_singleton]
      rw [h.ticket,BitVec.ofNat_add]
      rfl
    · simp only [Scheduler.acquire,List.length_append,List.length_singleton,List.range_succ,
        List.map_append,List.map_singleton]
      rw [←h.leases,h.ticket,BitVec.toNat_ofNat]
  | copyToDevice lease bytes accepted =>
    obtain ⟨_,he⟩ := Option.ite_none_right_eq_some.mp hs
    exact Option.some.inj he ▸ hcopy lease bytes _ accepted
  | copyToHost lease bytes accepted =>
    obtain ⟨_,he⟩ := Option.ite_none_right_eq_some.mp hs
    exact Option.some.inj he ▸ hcopy lease bytes _ accepted
  | count entry =>
    obtain ⟨c,_,he⟩ := Option.map_eq_some_iff.mp hs
    exact he ▸ hkept rfl rfl rfl
  | launch lease =>
    obtain ⟨_,he⟩ := Option.ite_none_right_eq_some.mp hs
    exact Option.some.inj he ▸ hkept rfl rfl rfl
  | recordCompletion lease accepted =>
    obtain ⟨_,he⟩ := Option.ite_none_right_eq_some.mp hs
    rw [←Option.some.inj he]
    split
    · exact hkept rfl rfl rfl
    · exact h
  | chain waiter signaller accepted =>
    obtain ⟨_,he⟩ := Option.ite_none_right_eq_some.mp hs
    rw [←Option.some.inj he]
    split
    · exact hkept rfl rfl rfl
    · exact h
  | noteDispatch lease =>
    obtain ⟨_,he⟩ := Option.ite_none_right_eq_some.mp hs
    exact Option.some.inj he ▸ hkept rfl rfl rfl
  | advance place =>
    obtain ⟨_,he⟩ := Option.ite_none_right_eq_some.mp hs
    exact Option.some.inj he ▸ hkept rfl rfl rfl

/-- The rotation holds in every run. -/
theorem reaches_rotating (h : schedulerMachine.Reaches s) : Rotating s := by
  refine h.invariant (P := Rotating) ?_ (fun s a t hs ht => hs.step ht)
  intro s hs
  obtain ⟨_,he⟩ := starts_eq hs
  rw [he]
  exact ⟨rfl,rfl⟩

/-- In every run, whichever threads acquire: before the counter wraps, two leases are
of one stream exactly when the number of streams divides how far apart they were
acquired, and as many leases in a row as there are streams are of every stream once.
So a lease is exclusive until as many others have been acquired as there are streams,
and not longer, whether or not it is still held. -/
theorem leases_rotate (h : schedulerMachine.Reaches s) :
    (∀ first second, first ≤ second → second < s.leases.length → second < 2^64 →
      (s.leases[first]?=s.leases[second]? ↔ s.stream_count ∣ second-first)) ∧
    ∀ first, first+s.stream_count ≤ s.leases.length → first+s.stream_count ≤ 2^64 →
      ((s.leases.drop first).take s.stream_count).Perm (List.range s.stream_count) := by
  have hr := reaches_rotating h
  have hat : ∀ ticket, ticket < s.leases.length → ticket < 2^64 →
      s.leases[ticket]?=some (ticket%s.stream_count) := by
    intro ticket hl hw
    rw [hr.leases,List.getElem?_map,List.getElem?_range hl,Option.map_some,Nat.mod_eq_of_lt hw]
  constructor
  · intro first second hle hl hw
    rw [hat first (hle.trans_lt hl) (hle.trans_lt hw),hat second hl hw,Option.some.injEq]
    exact (Nat.modEq_iff_dvd' hle)
  · intro first hl hw
    have htake : (s.leases.drop first).take s.stream_count=
        (List.range' first s.stream_count).map (·%s.stream_count) := by
      refine List.ext_getElem? fun i => ?_
      rw [List.getElem?_take,List.getElem?_map]
      split
      · next hi =>
        rw [List.getElem?_drop,hat (first+i) (by omega) (by omega),
          List.getElem?_range' hi,Option.map_some,Nat.one_mul]
      · next hi =>
        rw [List.getElem?_eq_none (by rw [List.length_range']; omega),Option.map_none]
    have hrange : Multiset.Ico first (first+s.stream_count)=
        (List.range' first s.stream_count : Multiset ℕ) := by
      change ((List.range' first (first+s.stream_count-first) : List ℕ) : Multiset ℕ)=_
      rw [Nat.add_sub_cancel_left]
    have hperm := Nat.multiset_Ico_map_mod first s.stream_count
    rw [hrange] at hperm
    rw [htake]
    exact Multiset.coe_eq_coe.mp hperm

end Leases

section Runs

/-- Two streams: a producer's copy and kernel are recorded, a consumer is made to wait
for them, the producer's stream is recorded once more, and the device finishes all
up to the consumer's kernel. -/
def chainedCalls : List Call :=
  [.acquire,.acquire,.copyToDevice 0 1024 true,.launch 0,.recordCompletion 0 true,
    .chain 1 0 true,.recordCompletion 0 true,.launch 1,.copyToHost 1 512 true,.noteDispatch 0,
    .count 1,.advance 0,.advance 1,.advance 2,.advance 3,.advance 5,.acquire]

/-- What such calls end in is reached. -/
theorem chained_reaches {P : Scheduler → Prop} [DecidablePred P]
    (h : (Machine.replay step (fun _ _ => true) chainedCalls
      ⟨2,0,[0,0],[],[],[],⟨[],fun _ => false⟩⟩).any (fun s => decide (P s))=true) :
    ∃ s, schedulerMachine.Reaches s ∧ P s := by
  obtain ⟨s,hr,hp⟩ := Machine.Reaches.replayed (m := schedulerMachine) (P := P)
    (fun _ _ => true) (fun _ _ _ ht => ht) chainedCalls (.start ⟨2,rfl⟩) h
  exact ⟨s,hr.of_guarded,hp⟩

/-- The consumer's kernel has finished, so the producer's has. -/
theorem chained_ordered : ∃ s, schedulerMachine.Reaches s ∧ s.device.done 5=true ∧
    s.device.done 1=true := by
  obtain ⟨s,hr,hd,hrecord,hwait,hfirst,hsecond⟩ := @chained_reaches (fun s =>
    s.device.done 5=true ∧ s.device.program[2]?=some ⟨0,.record 0⟩ ∧
      s.device.program[3]?=some ⟨1,.wait 0⟩ ∧
      s.device.program[1]?.map Issued.stream=some 0 ∧
      s.device.program[5]?.map Issued.stream=some 1) _ (by decide +kernel)
  exact ⟨s,hr,hd,(chain_orders hr hd).2 hrecord hwait (by decide) hfirst (by decide) hsecond
    (by decide)⟩

/-- Two commands are left, so the streams are not complete. -/
theorem chained_drains : ∃ s, schedulerMachine.Reaches s ∧ unfinished s.device=2 ∧
    ∃ place t, step s (.advance place)=some t := by
  obtain ⟨s,hr,hu,hc⟩ := @chained_reaches (fun s => unfinished s.device=2 ∧
    ∃ stream < s.stream_count, complete s.device stream=false) _ (by decide +kernel)
  exact ⟨s,hr,hu,(streams_drain hr).1.mp hc⟩

/-- The copy to the host is counted, the copy to the device not yet. -/
theorem chained_counted : ∃ s, schedulerMachine.Reaches s ∧ s.snapshot.total=⟨1,0,512⟩ ∧
    ⟨1,0,512⟩+summed Prod.snd s.counting=earned Prod.snd s := by
  obtain ⟨s,hr,ht⟩ := @chained_reaches (fun s => s.snapshot.total=⟨1,0,512⟩) _
    (by decide +kernel)
  exact ⟨s,hr,ht,ht ▸ (stats_counted hr).2.1⟩

/-- The third lease is of the first one's stream. -/
theorem chained_leases : ∃ s, schedulerMachine.Reaches s ∧ s.leases.length=3 ∧
    s.leases[0]?=s.leases[2]? := by
  obtain ⟨s,hr,hl,hc⟩ := @chained_reaches (fun s => s.leases.length=3 ∧ s.stream_count=2) _
    (by decide +kernel)
  refine ⟨s,hr,hl,((leases_rotate hr).1 0 2 (by decide) ?_ (by decide)).mpr ?_⟩
  · rw [hl]
    decide
  · rw [hc]

end Runs

end CudaForge.GpuScheduler
