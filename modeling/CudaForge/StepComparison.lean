import CudaForge.CeilDivision
import CudaForge.EchoSchedule
import CudaForge.HalvedRefills
import CudaForge.StaticBatching
import CudaForge.WorkConservation

/-!
# Decode steps of continuous and of static batching

What a run over the echo runner has done, and what it still has to do, always
add up to the schedule that fills half of the free rows in every pass. So
continuous batching serves the same requests with the same tokens as static
batching, but needs more decode steps for some workloads unless its first
pass takes every request.
-/

namespace CudaForge.StepComparison

open CacheBlocks CeilDivision GenerationSettings ServingTypes ContinuousScheduler SchedulerEffects
open SubmissionQueue
open EchoRunner ListScheduling HalvedRefills StaticBatching EchoSchedule TransitionRuns

variable {config : BatcherConfig} {stopAfter : StopAfter} {requests : List Request}
variable {v w : Echoing}

/-- How many steps a request takes. -/
def stepsOf (stopAfter : StopAfter) (request : Request) : ℕ :=
  lengthOf stopAfter request.prompt request.generation

/-- How many steps a row has left. -/
def leftOf (stopAfter : StopAfter) (row : Request×SequenceState) : ℕ :=
  stepsOf stopAfter row.1-row.2.generated

/-- A row on its way. -/
def Going (stopAfter : StopAfter) (row : Request×SequenceState) : Prop :=
  row.2=stateAfter stopAfter row.2.sequenceId row.1.prompt row.1.generation row.2.generated ∧
    row.2.generated<stepsOf stopAfter row.1

/-- A row at its end. -/
def Done (stopAfter : StopAfter) (row : Request×SequenceState) : Prop :=
  row.2=stateAfter stopAfter row.2.sequenceId row.1.prompt row.1.generation
    (stepsOf stopAfter row.1)

/-- The steps to come after an admission pass. -/
def afterPass (rows : ℕ) (running waiting : List ℕ) : ℕ :=
  if running=[] then 0 else 1+steps halved rows (tick running) waiting

/-- The steps to come, wherever the thread is. -/
def ahead (rows : ℕ) (phase : Phase) (running waiting : List ℕ) : ℕ :=
  match phase with
  | .admitting admitted =>
    afterPass rows
      (running++waiting.take (halved (rows-(running.length+admitted.length))))
      (waiting.drop (halved (rows-(running.length+admitted.length))))
  | _ => afterPass rows running waiting

/-- Where the thread can be, given who runs and who waits. -/
def Placed (v : Echoing) : Prop :=
  match v.batcher.phase with
  | .admitting admitted => v.batcher.running=[] → admitted=[]
  | .closing _ => v.batcher.running=[] → v.waiting=[]
  | .prefilling _ => v.batcher.running=[] → v.waiting=[]
  | .testing => v.batcher.running=[] → v.waiting=[]
  | .stepping => v.batcher.running≠[]
  | .returned => v.batcher.running=[] ∧ v.waiting=[]
  | .crashed _ => False

/-- Everything is served. -/
def Finished (v : Echoing) : Prop :=
  v.batcher.running=[] ∧ v.waiting=[] ∧ v.batcher.deferred=none

/-- How far a phase is from the decode step. -/
def rank : Phase → ℕ
  | .admitting _ => 4
  | .closing _ => 3
  | .prefilling _ => 2
  | .testing => 1
  | _ => 0

/-- The decode steps to come. -/
def Echoing.ahead (config : BatcherConfig) (stopAfter : StopAfter) (v : Echoing) : ℕ :=
  StepComparison.ahead config.maxBatch v.batcher.phase (v.batcher.running.map (leftOf stopAfter))
    (v.waiting.map (stepsOf stopAfter))

/-- What bounds the steps of the thread to come. -/
def Echoing.distance (config : BatcherConfig) (stopAfter : StopAfter) (v : Echoing) : ℕ :=
  5*Echoing.ahead config stopAfter v+v.waiting.length+rank v.batcher.phase

/-- The schedule the run follows. -/
def scheduled (config : BatcherConfig) (stopAfter : StopAfter) (requests : List Request) : ℕ :=
  steps halved config.maxBatch [] (requests.map (stepsOf stopAfter))

/-- When everything is served at the latest. -/
def latest (config : BatcherConfig) (stopAfter : StopAfter) (requests : List Request) : ℕ :=
  5*scheduled config stopAfter requests+requests.length+5

/-- What holds of the thread and its counters all along. -/
structure OnCourse (config : BatcherConfig) (stopAfter : StopAfter) (requests : List Request)
    (v : Echoing) : Prop where
  plain : Plain v
  going : ∀ row∈v.batcher.running, Going stopAfter row
  ended : ∀ row∈v.handed, Done stopAfter row
  /-- Every request is in one place. -/
  places : ((v.handed++v.batcher.running).map (fun row => unstamped row.1)++
    v.waiting.map unstamped).Perm (requests.map unstamped)
  /-- The work done and the work left. -/
  work : v.batcher.stats.occupiedRows+(v.batcher.running.map (leftOf stopAfter)).sum+
    (v.waiting.map (stepsOf stopAfter)).sum=(requests.map (stepsOf stopAfter)).sum
  counted : v.batcher.stats.completions=v.handed.length
  /-- The steps taken and the steps to come. -/
  schedule : v.batcher.stats.decodeSteps+Echoing.ahead config stopAfter v=
    scheduled config stopAfter requests
  placed : Placed v
  /-- Every step of the thread brings it closer to the end. -/
  pace : Finished v ∨
    v.turns+Echoing.distance config stopAfter v<latest config stopAfter requests

/-- A row ends with the step that is its last. -/
theorem Going.step {row : Request×SequenceState} (h : Going stopAfter row) :
    (leftOf stopAfter row=1 ∧ (stepped stopAfter row).2.finished=true ∧
      Done stopAfter (stepped stopAfter row)) ∨
    (1<leftOf stopAfter row ∧ (stepped stopAfter row).2.finished=false ∧
      Going stopAfter (stepped stopAfter row) ∧
      leftOf stopAfter (stepped stopAfter row)=leftOf stopAfter row-1) := by
  obtain ⟨request,state⟩ := row
  obtain ⟨hs,hl⟩ := h
  generalize hg : state.generated=taken at hs hl
  have hstate : state=
      stateAfter stopAfter state.sequenceId request.prompt request.generation taken := hs
  have hnext : (stepped stopAfter (request,state)).2=
      stateAfter stopAfter state.sequenceId request.prompt request.generation (taken+1) := by
    have hd : (stepped stopAfter (request,state)).2=decodeOne stopAfter state := rfl
    rw [hd]
    nth_rewrite 1 [hstate]
    exact decodeOne_stateAfter
  have hsequence : (stepped stopAfter (request,state)).2.sequenceId=state.sequenceId := by
    rw [hnext]
    rfl
  have hfinished : (stepped stopAfter (request,state)).2.finished=
      decide (stepsOf stopAfter request≤taken+1) := by
    rw [hnext]
    exact stateAfter_finished
  have hleft : leftOf stopAfter (request,state)=stepsOf stopAfter request-taken := by
    rw [leftOf,hg]
  have hrequest : (stepped stopAfter (request,state)).1=request := rfl
  have hlong : taken<stepsOf stopAfter request := hl
  by_cases hlast : stepsOf stopAfter request≤taken+1
  · refine Or.inl ⟨by omega,hfinished.trans (decide_eq_true hlast),?_⟩
    have he : taken+1=stepsOf stopAfter request := by omega
    rw [Done,hsequence,hrequest,←he]
    exact hnext
  · have hgenerated : (stepped stopAfter (request,state)).2.generated=taken+1 := by
      have hle : taken+1≤tokenCount stopAfter request.prompt request.generation := by
        have hb := Bool.toNat_le (stopsEarly stopAfter request.prompt request.generation)
        have hsum : stepsOf stopAfter request=
            tokenCount stopAfter request.prompt request.generation+
              (stopsEarly stopAfter request.prompt request.generation).toNat := rfl
        omega
      rw [hnext,SequenceState.generated,stateAfter]
      simp only [List.length_map,List.length_range]
      omega
    refine Or.inr ⟨by omega,hfinished.trans (decide_eq_false hlast),⟨?_,?_⟩,?_⟩
    · rw [hsequence,hrequest,hgenerated]
      exact hnext
    · rw [hrequest,hgenerated]
      omega
    · rw [leftOf,hrequest,hgenerated,hleft]
      omega

/-- A step of all rows: the finished ones are at their end, the others have
one step less to go. -/
theorem stepped_rows {rows : List (Request×SequenceState)}
    (h : ∀ row∈rows, Going stopAfter row) :
    (∀ row∈(rows.map (stepped stopAfter)).filter (fun row => !row.2.finished),
      Going stopAfter row) ∧
    (∀ row∈(rows.map (stepped stopAfter)).filter (fun row => row.2.finished),
      Done stopAfter row) ∧
    ((rows.map (stepped stopAfter)).filter (fun row => !row.2.finished)).map (leftOf stopAfter)=
      tick (rows.map (leftOf stopAfter)) ∧
    (((rows.map (stepped stopAfter)).filter (fun row => !row.2.finished)).map
      (leftOf stopAfter)).sum+rows.length=(rows.map (leftOf stopAfter)).sum := by
  induction rows with
  | nil =>
    exact ⟨fun _ hm => absurd hm List.not_mem_nil,fun _ hm => absurd hm List.not_mem_nil,rfl,rfl⟩
  | cons row rest ih =>
    obtain ⟨hgo,hdone,htick,hsum⟩ := ih (fun other hm => h other (List.mem_cons_of_mem _ hm))
    have hfirst := (h row List.mem_cons_self).step
    simp only [List.map_cons,List.filter_cons,tick_cons,List.length_cons,List.sum_cons]
    rcases hfirst with ⟨hl,hf,hd⟩ | ⟨hl,hf,hg,hnext⟩
    · simp only [hf,hl,Bool.not_true,Bool.false_eq_true,if_false,if_true,Nat.lt_irrefl]
      refine ⟨hgo,?_,htick,by omega⟩
      exact List.forall_mem_cons.mpr ⟨hd,hdone⟩
    · simp only [hf,if_pos hl,Bool.not_false,Bool.false_eq_true,if_false,if_true,List.map_cons,
        List.sum_cons,hnext]
      refine ⟨List.forall_mem_cons.mpr ⟨hg,hgo⟩,hdone,?_,by omega⟩
      rw [htick]

/-- A request that enters has all its steps to go. -/
theorem going_new (stopAfter : StopAfter) (s : Batcher) {request read : Request}
    (hl : request.prompt=read.prompt ∧ request.generation=read.generation) :
    Going stopAfter (request,newSequence s request) ∧
      leftOf stopAfter (request,newSequence s request)=stepsOf stopAfter read := by
  have hs : stepsOf stopAfter request=stepsOf stopAfter read := by
    rw [stepsOf,hl.1,hl.2,stepsOf]
  refine ⟨⟨?_,lengthOf_pos _ _ _⟩,?_⟩
  · exact stateAfter_zero.symm
  · rw [leftOf,hs]
    exact Nat.sub_zero _

section Ahead

variable {rows : ℕ} {admitted : List SequenceState} {running waiting : List ℕ}

theorem ahead_full (h : rows≤running.length+admitted.length) :
    ahead rows (.admitting admitted) running waiting=afterPass rows running waiting := by
  have hz : halved (rows-(running.length+admitted.length))=0 := by
    rw [Nat.sub_eq_zero_of_le h]
    rfl
  rw [ahead,hz,List.take_zero,List.drop_zero,List.append_nil]

theorem ahead_emptied :
    ahead rows (.admitting admitted) running []=afterPass rows running [] := by
  rw [ahead,List.take_nil,List.drop_nil,List.append_nil]

/-- An admission takes one of the places the pass has left. -/
theorem ahead_admits {state : SequenceState} {first : ℕ}
    (h : running.length+admitted.length<rows) :
    ahead rows (.admitting (admitted++[state])) (running++[first]) waiting=
      ahead rows (.admitting admitted) running (first::waiting) := by
  have hk : halved (rows-(running.length+admitted.length))=
      halved (rows-((running++[first]).length+(admitted++[state]).length))+1 := by
    rw [halved,halved,List.length_append,List.length_append,List.length_singleton,
      List.length_singleton]
    omega
  rw [ahead,ahead,hk,List.take_succ_cons,List.drop_succ_cons,List.append_assoc]
  rfl

/-- At the top of a pass the schedule starts over. -/
theorem ahead_top :
    ahead rows (.admitting []) running waiting=steps halved rows running waiting := by
  rw [ahead,steps,afterPass,List.length_nil,Nat.add_zero]
  split <;> rfl

theorem afterPass_nil : afterPass rows [] waiting=0 := if_pos rfl

theorem afterPass_cons (h : running≠[]) :
    afterPass rows running waiting=1+steps halved rows (tick running) waiting := if_neg h

end Ahead

/-- A run starts with everything ahead. -/
theorem start_onCourse (config : BatcherConfig) (stopAfter : StopAfter)
    (hr : ∀ request∈requests, request.deadline=none) :
    OnCourse config stopAfter requests {queue := requests.map some} := by
  have hw : requestsIn (requests.map some)=requests := by
    rw [requestsIn,List.filterMap_map]
    exact List.filterMap_some
  have hahead : Echoing.ahead config stopAfter {queue := requests.map some}=
      scheduled config stopAfter requests := by
    rw [Echoing.ahead,Echoing.waiting,hw]
    exact ahead_top
  refine ⟨⟨rfl,rfl,⟨0,?_⟩,?_⟩,fun _ hm => absurd hm List.not_mem_nil,
    fun _ hm => absurd hm List.not_mem_nil,?_,?_,rfl,?_,fun _ => rfl,Or.inr ?_⟩
  · rw [Echoing.waiting,hw]
    exact (List.append_nil _).symm
  · rw [Echoing.waiting,hw]
    exact hr
  · rw [Echoing.waiting,hw]
    exact List.Perm.refl _
  · rw [Echoing.waiting,hw]
    exact Nat.zero_add _
  · rw [hahead]
    exact Nat.zero_add _
  · rw [Echoing.distance,hahead,Echoing.waiting,hw,latest]
    simp only [rank]
    omega

/-- A step that only moves on. -/
theorem OnCourse.moved (h : OnCourse config stopAfter requests v) (hplain : Plain w)
    (hr : w.batcher.running=v.batcher.running) (hw : w.waiting=v.waiting)
    (hh : w.handed=v.handed)
    (hd : w.batcher.stats.decodeSteps=v.batcher.stats.decodeSteps)
    (ho : w.batcher.stats.occupiedRows=v.batcher.stats.occupiedRows)
    (hc : w.batcher.stats.completions=v.batcher.stats.completions)
    (ht : w.turns=v.turns+1) (hplaced : Placed w)
    (hahead : Echoing.ahead config stopAfter w=Echoing.ahead config stopAfter v)
    (hrank : Finished v ∨ rank w.batcher.phase<rank v.batcher.phase) :
    OnCourse config stopAfter requests w := by
  refine ⟨hplain,?_,?_,?_,?_,?_,?_,hplaced,?_⟩
  · rw [hr]
    exact h.going
  · rw [hh]
    exact h.ended
  · rw [hh,hr,hw]
    exact h.places
  · rw [ho,hr,hw]
    exact h.work
  · rw [hc,hh]
    exact h.counted
  · rw [hd,hahead]
    exact h.schedule
  · have hdone : Finished v → Finished w := fun hf =>
      ⟨hr.trans hf.1,hw.trans hf.2.1,hplain.undeferred⟩
    rcases hrank with hf | hrank
    · exact Or.inl (hdone hf)
    · refine h.pace.imp hdone (fun hp => ?_)
      have hsame : w.waiting.length=v.waiting.length := congrArg List.length hw
      rw [Echoing.distance] at hp ⊢
      omega

/-- A step that only moves on keeps the course. -/
theorem OnCourse.moves (h : OnCourse config stopAfter requests v) (hplain : Plain w)
    (hp : Moves config v w.batcher.phase) (hr : w.batcher.running=v.batcher.running)
    (hw : w.waiting=v.waiting) (hh : w.handed=v.handed)
    (hd : w.batcher.stats.decodeSteps=v.batcher.stats.decodeSteps)
    (ho : w.batcher.stats.occupiedRows=v.batcher.stats.occupiedRows)
    (hc : w.batcher.stats.completions=v.batcher.stats.completions)
    (ht : w.turns=v.turns+1) : OnCourse config stopAfter requests w := by
  have hplaced := h.placed
  have hahead : ∀ phase, w.batcher.phase=phase → Echoing.ahead config stopAfter w=
      ahead config.maxBatch phase (v.batcher.running.map (leftOf stopAfter))
        (v.waiting.map (stepsOf stopAfter)) := by
    intro phase hx
    rw [Echoing.ahead,hx,hr,hw]
  have hbefore : ∀ phase, v.batcher.phase=phase → Echoing.ahead config stopAfter v=
      ahead config.maxBatch phase (v.batcher.running.map (leftOf stopAfter))
        (v.waiting.map (stepsOf stopAfter)) := by
    intro phase hx
    rw [Echoing.ahead,hx]
  have hnone : v.batcher.running=[] → v.waiting=[] → Finished v := fun hx hy =>
    ⟨hx,hy,h.plain.undeferred⟩
  rw [Placed] at hplaced
  generalize hq : w.batcher.phase=phase at hp
  cases hp with
  | @full admitted hx hm =>
    simp only [hx] at hplaced
    refine h.moved hplain hr hw hh hd ho hc ht ?_ ?_ ?_
    · rw [Placed,hq]
      intro hn
      rw [hr] at hn
      rw [hn,hplaced hn] at hm
      exact absurd config.maxBatch_pos (Nat.not_lt.mpr hm)
    · rw [hahead _ hq,hbefore _ hx,ahead_full (by rw [List.length_map]; exact hm)]
      rfl
    · rw [hq,hx]
      exact Or.inr (by decide : 2<4)
  | @emptied admitted hx hn =>
    refine h.moved hplain hr hw hh hd ho hc ht ?_ ?_ ?_
    · rw [Placed,hq]
      exact fun _ => hw.trans hn
    · rw [hahead _ hq,hbefore _ hx,hn,List.map_nil,ahead_emptied]
      rfl
    · rw [hq,hx]
      exact Or.inr (by decide : 2<4)
  | @sentinel admitted hx hn =>
    refine h.moved hplain hr hw hh hd ho hc ht ?_ ?_ ?_
    · rw [Placed,hq]
      exact fun _ => hw.trans hn
    · rw [hahead _ hq,hbefore _ hx,hn,List.map_nil,ahead_emptied]
      rfl
    · rw [hq,hx]
      exact Or.inr (by decide : 3<4)
  | @closed admitted hx =>
    simp only [hx] at hplaced
    refine h.moved hplain hr hw hh hd ho hc ht ?_ ?_ ?_
    · rw [Placed,hq]
      exact fun hn => hw.trans (hplaced (hr ▸ hn))
    · rw [hahead _ hq,hbefore _ hx]
      rfl
    · rw [hq,hx]
      exact Or.inr (by decide : 2<3)
  | @prefilled admitted hx =>
    simp only [hx] at hplaced
    refine h.moved hplain hr hw hh hd ho hc ht ?_ ?_ ?_
    · rw [Placed,hq]
      exact fun hn => hw.trans (hplaced (hr ▸ hn))
    · rw [hahead _ hq,hbefore _ hx]
      rfl
    · rw [hq,hx]
      exact Or.inr (by decide : 1<2)
  | returned hx hrun hwait =>
    refine h.moved hplain hr hw hh hd ho hc ht ?_ ?_ (Or.inl (hnone hrun hwait))
    · rw [Placed,hq]
      exact ⟨hr.trans hrun,hw.trans hwait⟩
    · rw [hahead _ hq,hbefore _ hx]
      rfl
  | idled hx hrun =>
    simp only [hx] at hplaced
    have hwait := hplaced hrun
    refine h.moved hplain hr hw hh hd ho hc ht ?_ ?_ (Or.inl (hnone hrun hwait))
    · rw [Placed,hq]
      exact fun _ => rfl
    · rw [hahead _ hq,hbefore _ hx,hwait,List.map_nil,ahead_emptied]
      rfl
  | busy hx hrun =>
    refine h.moved hplain hr hw hh hd ho hc ht ?_ ?_ ?_
    · rw [Placed,hq]
      exact hr ▸ hrun
    · rw [hahead _ hq,hbefore _ hx]
      rfl
    · rw [hq,hx]
      exact Or.inr (by decide : 0<1)
  | starved hx hrun =>
    simp only [hx] at hplaced
    exact absurd hrun hplaced
  | halted hx =>
    rcases hx with hx | ⟨e,hx⟩
    · simp only [hx] at hplaced
      refine h.moved hplain hr hw hh hd ho hc ht ?_ ?_ (Or.inl (hnone hplaced.1 hplaced.2))
      · rw [Placed,hq,hx]
        exact ⟨hr.trans hplaced.1,hw.trans hplaced.2⟩
      · exact hahead _ hq
    · simp only [hx] at hplaced

/-- An admission keeps the course. -/
theorem OnCourse.admits (h : OnCourse config stopAfter requests v) (hplain : Plain w)
    {admitted : List SequenceState} {read request : Request}
    (hp : v.batcher.phase=.admitting admitted)
    (hm : v.batcher.running.length+admitted.length<config.maxBatch)
    (hw : v.waiting=read::w.waiting) (hu : unstamped request=unstamped read)
    (hl : request.prompt=read.prompt ∧ request.generation=read.generation)
    (hr : w.batcher.running=v.batcher.running++[(request,newSequence v.batcher request)])
    (ha : w.batcher.phase=.admitting (admitted++[newSequence v.batcher request]))
    (hs : w.batcher.stats=v.batcher.stats) (hh : w.handed=v.handed) (ht : w.turns=v.turns+1) :
    OnCourse config stopAfter requests w := by
  obtain ⟨hgo,hleft⟩ := going_new stopAfter v.batcher hl
  have hahead : Echoing.ahead config stopAfter w=Echoing.ahead config stopAfter v := by
    rw [Echoing.ahead,Echoing.ahead,hp,ha,hr,hw,List.map_append,List.map_cons,List.map_nil,
      List.map_cons,hleft]
    exact ahead_admits (by rw [List.length_map]; exact hm)
  refine ⟨hplain,?_,?_,?_,?_,?_,?_,?_,?_⟩
  · rw [hr]
    exact List.forall_mem_append.mpr ⟨h.going,List.forall_mem_singleton.mpr hgo⟩
  · rw [hh]
    exact h.ended
  · have hplaces := h.places
    rw [hw,List.map_cons,←hu] at hplaces
    rw [hh,hr,←List.append_assoc,List.map_append,List.append_assoc]
    exact hplaces
  · have hwork := h.work
    rw [hw,List.map_cons,List.sum_cons] at hwork
    rw [hs,hr,List.map_append,List.sum_append,List.map_cons,List.map_nil,List.sum_singleton,hleft]
    omega
  · rw [hs,hh]
    exact h.counted
  · rw [hs,hahead]
    exact h.schedule
  · rw [Placed,ha]
    intro hn
    rw [hr] at hn
    exact absurd hn (List.append_ne_nil_of_right_ne_nil _ (List.cons_ne_nil _ _))
  · refine Or.inr ?_
    have hp' := h.pace.resolve_left (fun hf => by
      have hn := hf.2.1
      rw [hw] at hn
      cases hn)
    have hlen : v.waiting.length=w.waiting.length+1 := congrArg List.length hw
    have hrank : rank w.batcher.phase=rank v.batcher.phase := by
      rw [ha,hp]
      rfl
    rw [Echoing.distance] at hp' ⊢
    rw [hahead,hrank]
    omega

/-- A decode step keeps the course. -/
theorem OnCourse.decodes (h : OnCourse config stopAfter requests v) (hplain : Plain w)
    (hp : v.batcher.phase=.stepping) (hn : v.batcher.running≠[])
    (hr : w.batcher.running=
      (v.batcher.running.map (stepped stopAfter)).filter (fun row => !row.2.finished))
    (ha : w.batcher.phase=.admitting []) (hw : w.waiting=v.waiting)
    (hh : w.handed=v.handed++
      (v.batcher.running.map (stepped stopAfter)).filter (fun row => row.2.finished))
    (hd : w.batcher.stats.decodeSteps=v.batcher.stats.decodeSteps+1)
    (ho : w.batcher.stats.occupiedRows=v.batcher.stats.occupiedRows+v.batcher.running.length)
    (hc : w.batcher.stats.completions=v.batcher.stats.completions+
      ((v.batcher.running.map (stepped stopAfter)).filter (fun row => row.2.finished)).length)
    (ht : w.turns=v.turns+1) : OnCourse config stopAfter requests w := by
  obtain ⟨hgo,hdone,htick,hsum⟩ := stepped_rows h.going
  have hahead : Echoing.ahead config stopAfter v=1+Echoing.ahead config stopAfter w := by
    rw [Echoing.ahead,Echoing.ahead,hp,ha,hr,hw,htick,ahead_top]
    exact afterPass_cons (fun hx => hn (List.map_eq_nil_iff.mp hx))
  refine ⟨hplain,?_,?_,?_,?_,?_,?_,?_,?_⟩
  · rw [hr]
    exact hgo
  · rw [hh]
    exact List.forall_mem_append.mpr ⟨h.ended,hdone⟩
  · have hsplit := (List.filter_append_perm (fun row => row.2.finished)
      (v.batcher.running.map (stepped stopAfter))).map (fun row => unstamped row.1)
    have hsame : (v.batcher.running.map (stepped stopAfter)).map (fun row => unstamped row.1)=
        v.batcher.running.map (fun row => unstamped row.1) := by
      rw [List.map_map]
      rfl
    rw [hsame] at hsplit
    have hplaces := h.places
    rw [List.map_append] at hplaces
    rw [hh,hr,hw,List.append_assoc,List.map_append]
    exact ((hsplit.append_left _).append_right _).trans hplaces
  · have hwork := h.work
    rw [ho,hr,hw]
    omega
  · rw [hc,hh,List.length_append,h.counted]
  · have hschedule := h.schedule
    rw [hd]
    omega
  · rw [Placed,ha]
    exact fun _ => rfl
  · refine Or.inr ?_
    have hp' := h.pace.resolve_left (fun hf => hn hf.1)
    have hlen : w.waiting.length=v.waiting.length := congrArg List.length hw
    rw [Echoing.distance,hp] at hp'
    rw [Echoing.distance,ha]
    simp only [rank] at hp' ⊢
    omega

/-- A sentinel keeps the course. -/
theorem OnCourse.closes (h : OnCourse config stopAfter requests v) :
    OnCourse config stopAfter requests {v with queue := v.queue++[none]} := by
  have hw : requestsIn (v.queue++[none])=v.waiting := by
    rw [requestsIn_append]
    exact List.append_nil _
  obtain ⟨count,hq⟩ := h.plain.sentinels
  have hplain : Plain {v with queue := v.queue++[none]} := by
    refine ⟨h.plain.cacheless,h.plain.undeferred,⟨count+1,?_⟩,?_⟩
    · rw [Echoing.waiting,hw,List.replicate_succ',←List.append_assoc,←hq]
    · rw [Echoing.waiting,hw]
      exact h.plain.timeless
  have hplaced := h.placed
  have hpace := h.pace
  refine ⟨hplain,h.going,h.ended,?_,?_,h.counted,?_,?_,?_⟩
  · rw [Echoing.waiting,hw]
    exact h.places
  · rw [Echoing.waiting,hw]
    exact h.work
  · rw [Echoing.ahead,Echoing.waiting,hw]
    exact h.schedule
  · rw [Placed] at hplaced ⊢
    rw [Echoing.waiting,hw]
    exact hplaced
  · rw [Finished,Echoing.distance,Echoing.ahead,Echoing.waiting,hw]
    exact hpace

/-- Every run is on course. -/
theorem reaches_onCourse (hr : ∀ request∈requests, request.deadline=none)
    (h : (echoMachine config stopAfter requests).Reaches v) :
    OnCourse config stopAfter requests v := by
  refine h.invariant (P := OnCourse config stopAfter requests) ?_ ?_
  · intro v hv
    exact hv ▸ start_onCourse config stopAfter hr
  · intro v action w hv hs
    cases action with
    | close => exact hs ▸ hv.closes
    | thread now checkedAt completeRaises =>
      obtain ⟨hcourse,hplain⟩ :=
        thread_course config stopAfter hv.plain now checkedAt completeRaises
      have ht : (v.step config stopAfter (.thread now checkedAt completeRaises)).turns=
          v.turns+1 := rfl
      rw [←hs] at hcourse hplain ht
      cases hcourse with
      | admits hp hm hw hu hl hrun ha hst hh =>
        exact hv.admits hplain hp hm hw hu hl hrun ha hst hh ht
      | decodes hp hn hrun ha hw hh hd ho hc =>
        exact hv.decodes hplain hp hn hrun ha hw hh hd ho hc ht
      | moves hp hrun hw hh hd ho hc => exact hv.moves hplain hp hrun hw hh hd ho hc ht

/-- The prompts of some requests, as static batching takes them. -/
def prompts (requests : List Request) : List (String×GenerationConfig) :=
  requests.map (fun request => (request.prompt,request.generation))

/-- The steps of all sequences together. -/
def totalSteps (stopAfter : StopAfter) (requests : List Request) : ℕ :=
  (requests.map (stepsOf stopAfter)).sum

theorem prompts_lengths (stopAfter : StopAfter) (requests : List Request) :
    (prompts requests).map (promptLength stopAfter)=requests.map (stepsOf stopAfter) := by
  rw [prompts,List.map_map]
  rfl

/-- A finished continuous run beside static batching. -/
structure Compared (config : BatcherConfig) (stopAfter : StopAfter) (requests : List Request)
    (held : List SequenceState) (counted : ContinuousStats) (v : Echoing) : Prop where
  /-- The same requests, with the same tokens. -/
  outcomes : (v.handed.map (fun row => (unstamped row.1,verdictOf row.2))).Perm
    ((requests.map unstamped).zip (held.map verdictOf))
  completions : v.batcher.stats.completions=counted.completions
  occupied : v.batcher.stats.occupiedRows=totalSteps stopAfter requests
  held_occupied : counted.occupiedRows=totalSteps stopAfter requests
  /-- No sequence is done in fewer steps than it takes. -/
  longest : ∀ request∈requests, stepsOf stopAfter request≤v.batcher.stats.decodeSteps
  /-- No step does more than one step of every row. -/
  shared : totalSteps stopAfter requests ⌈/⌉ config.maxBatch≤v.batcher.stats.decodeSteps

/-- Static batching ends, the continuous run ends, and they serve alike. -/
structure Served (config : BatcherConfig) (stopAfter : StopAfter) (requests : List Request) :
    Prop where
  static_ends : ∀ fuel, fuelFor stopAfter (prompts requests)≤fuel →
    (runStatic stopAfter config.maxBatch fuel (prompts requests) [] {}).isSome=true
  ends : ∃ bound, ∀ v, (echoMachine config stopAfter requests).Reaches v → bound≤v.turns →
    Finished v
  alike : ∀ fuel held counted v, fuelFor stopAfter (prompts requests)≤fuel →
    runStatic stopAfter config.maxBatch fuel (prompts requests) [] {}=some (held,counted) →
    (echoMachine config stopAfter requests).Reaches v → Finished v →
    Compared config stopAfter requests held counted v

/-- They serve alike, and the continuous run needs no more decode steps. -/
def NeverSlower (config : BatcherConfig) (stopAfter : StopAfter) (requests : List Request) : Prop :=
  Served config stopAfter requests ∧
  ∀ fuel held counted v, fuelFor stopAfter (prompts requests)≤fuel →
    runStatic stopAfter config.maxBatch fuel (prompts requests) [] {}=some (held,counted) →
    (echoMachine config stopAfter requests).Reaches v → Finished v →
    v.batcher.stats.decodeSteps≤counted.decodeSteps

/-- A finished run has followed the schedule to its end. -/
theorem OnCourse.finished (h : OnCourse config stopAfter requests v) (hf : Finished v) :
    v.batcher.stats.decodeSteps=scheduled config stopAfter requests ∧
      v.batcher.stats.occupiedRows=totalSteps stopAfter requests := by
  have hschedule := h.schedule
  have hwork := h.work
  have hnone : Echoing.ahead config stopAfter v=0 := by
    rw [Echoing.ahead,hf.1,hf.2.1,List.map_nil,List.map_nil]
    unfold StepComparison.ahead
    split
    · rw [List.take_nil,List.append_nil]
      exact afterPass_nil
    · exact afterPass_nil
  rw [hf.1,hf.2.1] at hwork
  exact ⟨by omega,hwork⟩

/-- What the requests of a finished run ended with. -/
theorem OnCourse.outcomes (h : OnCourse config stopAfter requests v) (hf : Finished v) :
    (v.handed.map (fun row => (unstamped row.1,verdictOf row.2))).Perm
      ((requests.map unstamped).zip ((prompts requests).map (verdictFor stopAfter))) := by
  have hplaces := h.places
  rw [hf.1,hf.2.1,List.append_nil,List.map_nil,List.append_nil] at hplaces
  have hleft : v.handed.map (fun row => (unstamped row.1,verdictOf row.2))=
      (v.handed.map (fun row => unstamped row.1)).map (fun request =>
        (request,verdictFor stopAfter (request.prompt,request.generation))) := by
    rw [List.map_map]
    refine List.map_congr_left (fun row hm => Prod.ext rfl ?_)
    have hd := h.ended row hm
    rw [Done] at hd
    rw [hd]
    exact verdictOf_stateAfter (row.1.prompt,row.1.generation) (Nat.le_refl _)
  have hright : (requests.map unstamped).zip ((prompts requests).map (verdictFor stopAfter))=
      (requests.map unstamped).map (fun request =>
        (request,verdictFor stopAfter (request.prompt,request.generation))) := by
    rw [prompts,List.map_map,List.zip_map',List.map_map]
    rfl
  rw [hleft,hright]
  exact hplaces.map _

/-- What static batching counts. -/
theorem static_eq (config : BatcherConfig) (stopAfter : StopAfter) (requests : List Request)
    {fuel : ℕ} (hf : fuelFor stopAfter (prompts requests)≤fuel) :
    ∃ held counted, runStatic stopAfter config.maxBatch fuel (prompts requests) [] {}=
        some (held,counted) ∧
      held.map verdictOf=(prompts requests).map (verdictFor stopAfter) ∧
      counted.decodeSteps=batched config.maxBatch (requests.map (stepsOf stopAfter)) ∧
      counted.occupiedRows=totalSteps stopAfter requests ∧
      counted.completions=requests.length := by
  obtain ⟨held,counted,hr,hv,hd,ho,hc⟩ :=
    runStatic_eq stopAfter config.maxBatch_pos fuel (prompts requests) [] {} hf
  rw [prompts_lengths] at hd ho
  refine ⟨held,counted,hr,hv,?_,?_,?_⟩
  · exact hd.trans (Nat.zero_add _)
  · exact ho.trans (Nat.zero_add _)
  · exact hc.trans ((Nat.zero_add _).trans (List.length_map _))

/-- Whatever the lengths, both serve alike. -/
theorem served (config : BatcherConfig) (stopAfter : StopAfter)
    (hr : ∀ request∈requests, request.deadline=none) : Served config stopAfter requests := by
  refine ⟨?_,⟨latest config stopAfter requests,?_⟩,?_⟩
  · intro fuel hf
    obtain ⟨held,counted,hs,_⟩ := static_eq config stopAfter requests hf
    rw [hs]
    rfl
  · intro v hv hb
    refine (reaches_onCourse hr hv).pace.resolve_right (fun hp => ?_)
    omega
  · intro fuel held counted v hf hs hv hfin
    obtain ⟨held',counted',hs',hver,_,hocc,hcomp⟩ := static_eq config stopAfter requests hf
    obtain ⟨rfl,rfl⟩ := Prod.mk.inj (Option.some.inj (hs.symm.trans hs'))
    have hon := reaches_onCourse hr hv
    obtain ⟨hsteps,hwork⟩ := hon.finished hfin
    have hlen := (hon.outcomes hfin).length_eq
    rw [List.length_map,List.length_zip,List.length_map,List.length_map,prompts,List.length_map,
      Nat.min_self] at hlen
    refine ⟨?_,?_,hwork,hocc,?_,?_⟩
    · rw [hver]
      exact hon.outcomes hfin
    · rw [hon.counted,hlen,hcomp]
    · intro request hm
      rw [hsteps]
      exact halved_grant.le_steps config.maxBatch_pos [] _ _ (List.mem_map_of_mem hm)
    · rw [hsteps,ceilDiv_le_iff config.maxBatch_pos,Nat.mul_comm]
      have hle := halved_grant.work_le config.maxBatch_pos [] (requests.map (stepsOf stopAfter))
        (Nat.zero_le _)
      rw [List.sum_nil,Nat.zero_add] at hle
      exact hle

/-- A request for so many tokens; the prompts of different ones differ. -/
def job (index tokens : ℕ) : Request where
  requestId := toString index
  prompt := String.ofList (List.replicate index 'p')
  generation :=
    if h : 0<tokens then
      ⟨tokens,1,1,0,none,h,default_temperature,default_mass,default_mass_le⟩
    else defaultGeneration
  enqueuedAt := 0

/-- Requests for some numbers of tokens. -/
def jobsFor (lengths : List ℕ) : List Request :=
  lengths.zipIdx.map (fun entry => job entry.2 entry.1)

theorem jobsFor_steps {lengths : List ℕ} (hp : ∀ left∈lengths, 0<left) :
    (jobsFor lengths).map (stepsOf (fun _ => none))=lengths := by
  have hz : lengths.zipIdx.map Prod.fst=lengths := List.zipIdx_map_fst 0 lengths
  nth_rewrite 2 [←hz]
  rw [jobsFor,List.map_map]
  refine List.map_congr_left (fun entry hm => ?_)
  have hpos : 0<entry.1 := hp _ (hz ▸ List.mem_map_of_mem hm)
  have hlen : stepsOf (fun _ => none) (job entry.2 entry.1)=
      (job entry.2 entry.1).generation.maxNewTokens := rfl
  rw [Function.comp_apply,hlen,job,dif_pos hpos]

theorem jobsFor_prompts (lengths : List ℕ) : ((jobsFor lengths).map Request.prompt).Nodup := by
  have hi : lengths.zipIdx.map Prod.snd=List.range' 0 lengths.length :=
    List.zipIdx_map_snd 0 lengths
  have hp : (jobsFor lengths).map Request.prompt=
      (lengths.zipIdx.map Prod.snd).map
        (fun index => String.ofList (List.replicate index 'p')) := by
    rw [jobsFor,List.map_map,List.map_map]
    rfl
  rw [hp,hi]
  refine List.Nodup.map ?_ List.nodup_range'
  intro index other he
  have hl := congrArg (fun text : String => text.toList.length) he
  simp only [String.toList_ofList,List.length_replicate] at hl
  exact hl

/-- The thread can take any number of steps. -/
theorem exists_turns (config : BatcherConfig) (stopAfter : StopAfter) (requests : List Request)
    (count : ℕ) : ∃ v, (echoMachine config stopAfter requests).Reaches v ∧ v.turns=count := by
  induction count with
  | zero => exact ⟨_,.start rfl,rfl⟩
  | succ count ih =>
    obtain ⟨v,hv,ht⟩ := ih
    exact ⟨_,hv.step (a := .thread 0 0 (fun _ => false)) rfl,congrArg (·+1) ht⟩

/-- Continuous and static batching always serve alike. The continuous one
never needs more decode steps for some number of requests exactly when there
is one row, when the first pass takes every request, or for four requests on
three rows. -/
theorem neverSlower_iff (config : BatcherConfig) :
    (∀ stopAfter requests, (∀ request∈requests, request.deadline=none) →
      Served config stopAfter requests) ∧
    ∀ count, (∀ stopAfter requests, requests.length=count →
        (requests.map Request.prompt).Nodup → (∀ request∈requests, request.deadline=none) →
        NeverSlower config stopAfter requests) ↔ Suffices config.maxBatch count := by
  refine ⟨fun stopAfter requests hr => served config stopAfter hr,fun count => ?_⟩
  constructor
  · intro h
    by_contra hs
    obtain ⟨lengths,hlen,hpos,hless⟩ := exists_exceeding config.maxBatch_pos hs
    have htimes : ∀ request∈jobsFor lengths, request.deadline=none := by
      intro request hm
      obtain ⟨entry,_,rfl⟩ := List.mem_map.mp hm
      rfl
    have hcount : (jobsFor lengths).length=count := by
      rw [jobsFor,List.length_map,List.length_zipIdx,hlen]
    obtain ⟨hserved,hnever⟩ := h (fun _ => none) (jobsFor lengths) hcount
      (jobsFor_prompts lengths) htimes
    obtain ⟨bound,hends⟩ := hserved.ends
    obtain ⟨v,hv,ht⟩ := exists_turns config (fun _ => none) (jobsFor lengths) bound
    have hfin := hends v hv ht.ge
    obtain ⟨held,counted,hstatic,_,hbatched,_,_⟩ :=
      static_eq config (fun _ => none) (jobsFor lengths) (Nat.le_refl _)
    have hle := hnever _ held counted v (Nat.le_refl _) hstatic hv hfin
    have hsteps := ((reaches_onCourse htimes hv).finished hfin).1
    rw [hsteps,hbatched,scheduled,jobsFor_steps hpos] at hle
    exact Nat.lt_irrefl _ (hless.trans_le hle)
  · intro hs stopAfter requests hcount _ hr
    refine ⟨served config stopAfter hr,?_⟩
    intro fuel held counted v hf hstatic hv hfin
    obtain ⟨held',counted',hstatic',_,hbatched,_,_⟩ := static_eq config stopAfter requests hf
    obtain ⟨_,rfl⟩ := Prod.mk.inj (Option.some.inj (hstatic.symm.trans hstatic'))
    rw [((reaches_onCourse hr hv).finished hfin).1,hbatched,scheduled]
    refine steps_le_batched config.maxBatch_pos ?_ ?_
    · intro left hm
      obtain ⟨request,_,rfl⟩ := List.mem_map.mp hm
      exact lengthOf_pos _ _ _
    · rw [List.length_map,hcount]
      exact hs

/-- Ten steps of the thread serve two requests of one token on two rows. -/
def pairRun : List Action := List.replicate 10 (.thread 0 0 (fun _ => false))

/-- The run over the two requests. -/
def pairReplayed : Option Echoing :=
  Machine.replay (fun v action => some (v.step WorkConservation.twoRows (fun _ => none) action))
    (fun _ _ => true) pairRun {queue := (jobsFor [1,1]).map some}

theorem pairReplayed_isSome : pairReplayed.isSome=true := by decide +kernel

/-- Static batching of the two requests. -/
def pairStatic : Option (List SequenceState×ContinuousStats) :=
  runStatic (fun _ => none) 2 4 (prompts (jobsFor [1,1])) [] {}

theorem pairStatic_isSome : pairStatic.isSome=true := by decide +kernel

/-- The first pass leaves a row free, so the second request is decoded alone. -/
theorem pair_slower : ¬∀ config stopAfter requests,
    (requests.map Request.prompt).Nodup → (∀ request∈requests, request.deadline=none) →
      NeverSlower config stopAfter requests := by
  intro h
  have hn := (h WorkConservation.twoRows (fun _ => none) (jobsFor [1,1])
    (jobsFor_prompts [1,1]) (by decide +kernel)).2
  have hr := Machine.Reaches.replay
    (m := echoMachine WorkConservation.twoRows (fun _ => none) (jobsFor [1,1]))
    (fun _ _ _ hs => (Option.some.inj hs).symm) pairRun (.start rfl)
    (Option.some_get pairReplayed_isSome).symm
  have hs : runStatic (fun _ => none) 2 4 (prompts (jobsFor [1,1])) [] {}=
      some (pairStatic.get pairStatic_isSome) := (Option.some_get pairStatic_isSome).symm
  have hle := hn 4 _ _ _ (by decide +kernel) hs hr.of_guarded
    ⟨by decide +kernel,by decide +kernel,by decide +kernel⟩
  exact absurd hle (by decide +kernel)

end CudaForge.StepComparison
