import CudaForge.ContinuousScheduler
import CudaForge.EchoRunner
import CudaForge.ListScheduling

/-!
# Static batching

`run_static` over the echo runner: batches in the order of the prompts, each
held until its longest member is done. The sequences are kept, to compare
their tokens. With fuel enough it runs to its end, and what it counts is
what the lengths of the sequences say.
-/

namespace CudaForge.StaticBatching

open GenerationSettings ServingTypes EchoRunner ListScheduling
open ContinuousScheduler (ContinuousStats)

/-- The members of a batch that have not finished. -/
def width (states : List SequenceState) : ℕ :=
  states.countP (fun state => !state.finished)

/-- One step of a batch, counted. -/
def countStep (maxBatch : ℕ) (states : List SequenceState) (stats : ContinuousStats) :
    ContinuousStats :=
  {stats with
    decodeSteps := stats.decodeSteps+1
    occupiedRows := stats.occupiedRows+width states
    availableRows := stats.availableRows+maxBatch
    maxObservedBatch := max stats.maxObservedBatch (width states)}

/-- Step a batch until every member is done. -/
def holdBatch (stopAfter : StopAfter) (maxBatch : ℕ) :
    ℕ → List SequenceState → ContinuousStats → Option (List SequenceState×ContinuousStats)
  | fuel,states,stats =>
    if states.any (fun state => !state.finished) then
      match fuel with
      | 0 => none
      | fuel+1 =>
        holdBatch stopAfter maxBatch fuel (decodeStep stopAfter states)
          (countStep maxBatch states stats)
    else some (states,stats)

/-- The sequences of a batch; their ids are their places in it. -/
def openBatch (batch : List (String×GenerationConfig)) : List SequenceState :=
  batch.zipIdx.map (fun entry =>
    {sequenceId := entry.2, prompt := entry.1.1, generation := entry.1.2})

/-- The rest of `run_static`, with the sequences that are done. -/
def runStatic (stopAfter : StopAfter) (maxBatch : ℕ) :
    ℕ → List (String×GenerationConfig) → List SequenceState → ContinuousStats →
      Option (List SequenceState×ContinuousStats)
  | fuel,pending,done,stats =>
    if pending=[] then some (done,stats)
    else
      match fuel with
      | 0 => none
      | fuel+1 => do
        let states := openBatch (pending.take maxBatch)
        let (held,counted) ← holdBatch stopAfter maxBatch fuel states
          {stats with admissions := stats.admissions+states.length}
        runStatic stopAfter maxBatch fuel (pending.drop maxBatch) (done++held)
          {counted with completions := counted.completions+held.length}

/-- The length of a sequence. -/
def promptLength (stopAfter : StopAfter) (entry : String×GenerationConfig) : ℕ :=
  lengthOf stopAfter entry.1 entry.2

/-- A batch after so many steps. -/
def batchAfter (stopAfter : StopAfter) (taken : ℕ) (batch : List (String×GenerationConfig)) :
    List SequenceState :=
  batch.zipIdx.map (fun entry => stateAfter stopAfter entry.2 entry.1.1 entry.1.2 taken)

variable {stopAfter : StopAfter} {maxBatch taken : ℕ} {batch : List (String×GenerationConfig)}
variable {stats : ContinuousStats}

theorem openBatch_eq (stopAfter : StopAfter) (batch : List (String×GenerationConfig)) :
    openBatch batch=batchAfter stopAfter 0 batch := by
  rw [openBatch,batchAfter]
  exact List.map_congr_left (fun _ _ => stateAfter_zero.symm)

theorem decodeStep_batchAfter :
    decodeStep stopAfter (batchAfter stopAfter taken batch)=
      batchAfter stopAfter (taken+1) batch := by
  rw [decodeStep,batchAfter,List.map_map,batchAfter]
  exact List.map_congr_left (fun _ _ => decodeOne_stateAfter)

/-- Who is still active is read off the lengths. -/
theorem width_batchAfter (stopAfter : StopAfter) (taken : ℕ)
    (batch : List (String×GenerationConfig)) :
    width (batchAfter stopAfter taken batch)=
      (batch.map (promptLength stopAfter)).countP (fun left => taken<left) := by
  have hz : batch.zipIdx.map Prod.fst=batch := List.zipIdx_map_fst 0 batch
  nth_rewrite 2 [←hz]
  rw [width,batchAfter,List.countP_map,List.map_map,List.countP_map]
  refine List.countP_congr (fun entry _ => ?_)
  simp only [Function.comp_apply,stateAfter_finished,promptLength,Bool.not_eq_true',
    decide_eq_false_iff_not,Nat.not_le]
  exact decide_eq_true_iff.symm

theorem any_batchAfter (stopAfter : StopAfter) (taken : ℕ)
    (batch : List (String×GenerationConfig)) :
    ((batchAfter stopAfter taken batch).any (fun state => !state.finished)=true) ↔
      taken<longest (batch.map (promptLength stopAfter)) := by
  have hw := width_batchAfter stopAfter taken batch
  rw [width] at hw
  have hany : ((batchAfter stopAfter taken batch).any (fun state => !state.finished)=true) ↔
      0<(batchAfter stopAfter taken batch).countP (fun state => !state.finished) := by
    rw [List.any_eq_true,List.countP_pos_iff]
  rw [hany,hw]
  generalize batch.map (promptLength stopAfter)=lengths
  induction lengths with
  | nil => exact iff_of_false (Nat.lt_irrefl 0) (Nat.not_lt_zero taken)
  | cons left rest ih =>
    rw [List.countP_cons,longest_cons,lt_max_iff]
    by_cases hl : taken<left
    · rw [if_pos (decide_eq_true hl)]
      exact iff_of_true (Nat.succ_pos _) (Or.inl hl)
    · rw [if_neg (fun hd => hl (of_decide_eq_true hd)),Nat.add_zero]
      exact ih.trans (or_iff_right hl).symm

/-- The work left in some sequences after so many steps. -/
def workAfter (taken : ℕ) (lengths : List ℕ) : ℕ := (lengths.map (fun left => left-taken)).sum

theorem workAfter_succ (taken : ℕ) (lengths : List ℕ) :
    lengths.countP (fun left => taken<left)+workAfter (taken+1) lengths=
      workAfter taken lengths := by
  induction lengths with
  | nil => rfl
  | cons left rest ih =>
    have hw : ∀ count, workAfter count (left::rest)=left-count+workAfter count rest :=
      fun count => rfl
    rw [List.countP_cons,hw,hw,←ih]
    by_cases hl : taken<left
    · rw [if_pos (decide_eq_true hl)]
      omega
    · rw [if_neg (fun hd => hl (of_decide_eq_true hd))]
      omega

theorem workAfter_done {lengths : List ℕ} (h : longest lengths≤taken) :
    workAfter taken lengths=0 := by
  rw [workAfter,List.sum_eq_zero_iff]
  intro left hm
  obtain ⟨length,hl,rfl⟩ := List.mem_map.mp hm
  exact Nat.sub_eq_zero_of_le ((le_longest hl).trans h)

/-- A batch is held for as many steps as its longest member takes. -/
theorem holdBatch_eq (stopAfter : StopAfter) (maxBatch : ℕ)
    (batch : List (String×GenerationConfig)) (fuel : ℕ) :
    ∀ (taken : ℕ) (stats : ContinuousStats),
      longest (batch.map (promptLength stopAfter))≤taken+fuel →
      taken≤longest (batch.map (promptLength stopAfter)) →
      ∃ counted, holdBatch stopAfter maxBatch fuel (batchAfter stopAfter taken batch) stats=
          some (batchAfter stopAfter (longest (batch.map (promptLength stopAfter))) batch,
            counted) ∧
        counted.decodeSteps=
          stats.decodeSteps+(longest (batch.map (promptLength stopAfter))-taken) ∧
        counted.occupiedRows=
          stats.occupiedRows+workAfter taken (batch.map (promptLength stopAfter)) ∧
        counted.completions=stats.completions := by
  induction fuel with
  | zero =>
    intro taken stats hf ht
    have he : taken=longest (batch.map (promptLength stopAfter)) := Nat.le_antisymm ht hf
    rw [holdBatch,if_neg (fun ha => Nat.lt_irrefl _ (he ▸ (any_batchAfter _ _ _).mp ha))]
    refine ⟨stats,by rw [he],by omega,?_,rfl⟩
    rw [workAfter_done he.symm.le,Nat.add_zero]
  | succ fuel ih =>
    intro taken stats hf ht
    by_cases hlt : taken<longest (batch.map (promptLength stopAfter))
    · obtain ⟨counted,hh,hd,ho,hc⟩ := ih (taken+1)
        (countStep maxBatch (batchAfter stopAfter taken batch) stats) (by omega) hlt
      rw [holdBatch,if_pos ((any_batchAfter _ _ _).mpr hlt)]
      refine ⟨counted,?_,?_,?_,hc⟩
      · simp only [decodeStep_batchAfter]
        exact hh
      · have hs : (countStep maxBatch (batchAfter stopAfter taken batch) stats).decodeSteps=
            stats.decodeSteps+1 := rfl
        rw [hd,hs]
        omega
      · have hw := workAfter_succ taken (batch.map (promptLength stopAfter))
        have hs : (countStep maxBatch (batchAfter stopAfter taken batch) stats).occupiedRows=
            stats.occupiedRows+width (batchAfter stopAfter taken batch) := rfl
        rw [ho,hs,width_batchAfter,←hw,Nat.add_assoc]
    · have he : taken=longest (batch.map (promptLength stopAfter)) := by omega
      rw [holdBatch,if_neg (fun ha => hlt ((any_batchAfter _ _ _).mp ha))]
      refine ⟨stats,by rw [he],by omega,?_,rfl⟩
      rw [workAfter_done he.symm.le,Nat.add_zero]

/-- What a sequence ends with. -/
def verdictOf (state : SequenceState) : String×GenerationConfig×List String×Bool :=
  (state.prompt,state.generation,state.tokens,state.stoppedEarly)

/-- What the sequence of a prompt ends with. -/
def verdictFor (stopAfter : StopAfter) (entry : String×GenerationConfig) :
    String×GenerationConfig×List String×Bool :=
  verdictOf (stateAfter stopAfter 0 entry.1 entry.2 (promptLength stopAfter entry))

/-- The id does not matter, nor do steps behind the end. -/
theorem verdictOf_stateAfter {sequence : CacheBlocks.SequenceId}
    (entry : String×GenerationConfig) (h : promptLength stopAfter entry≤taken) :
    verdictOf (stateAfter stopAfter sequence entry.1 entry.2 taken)=verdictFor stopAfter entry := by
  rw [stateAfter_stable h]
  rfl

theorem held_verdicts (stopAfter : StopAfter) (batch : List (String×GenerationConfig)) :
    (batchAfter stopAfter (longest (batch.map (promptLength stopAfter))) batch).map verdictOf=
      batch.map (verdictFor stopAfter) := by
  have hz : batch.zipIdx.map Prod.fst=batch := List.zipIdx_map_fst 0 batch
  have hr : batch.map (verdictFor stopAfter)=
      batch.zipIdx.map (fun entry => verdictFor stopAfter entry.1) := by
    nth_rewrite 1 [←hz]
    rw [List.map_map]
    rfl
  rw [hr,batchAfter,List.map_map]
  refine List.map_congr_left (fun entry hm => ?_)
  have hin : entry.1∈batch := hz ▸ List.mem_map_of_mem hm
  exact verdictOf_stateAfter entry.1 (le_longest (List.mem_map_of_mem hin))

/-- Fuel enough for static batching. -/
def fuelFor (stopAfter : StopAfter) (pending : List (String×GenerationConfig)) : ℕ :=
  pending.length+(pending.map (promptLength stopAfter)).sum

theorem longest_le_sum (lengths : List ℕ) : longest lengths≤lengths.sum := by
  induction lengths with
  | nil => exact Nat.le_refl 0
  | cons left rest ih =>
    rw [longest_cons,List.sum_cons]
    omega

/-- With fuel enough static batching runs to its end. -/
theorem runStatic_eq (stopAfter : StopAfter) {maxBatch : ℕ} (hb : 0 < maxBatch) (fuel : ℕ) :
    ∀ (pending : List (String×GenerationConfig)) (done : List SequenceState)
      (stats : ContinuousStats), fuelFor stopAfter pending≤fuel →
      ∃ held counted, runStatic stopAfter maxBatch fuel pending done stats=
          some (done++held,counted) ∧
        held.map verdictOf=pending.map (verdictFor stopAfter) ∧
        counted.decodeSteps=
          stats.decodeSteps+batched maxBatch (pending.map (promptLength stopAfter)) ∧
        counted.occupiedRows=
          stats.occupiedRows+(pending.map (promptLength stopAfter)).sum ∧
        counted.completions=stats.completions+pending.length := by
  induction fuel with
  | zero =>
    intro pending done stats hf
    have hn : pending=[] := List.length_eq_zero_iff.mp (by rw [fuelFor] at hf; omega)
    subst hn
    refine ⟨[],stats,?_,rfl,?_,rfl,rfl⟩
    · rw [runStatic,if_pos rfl,List.append_nil]
    · rw [List.map_nil,batched_nil]
      rfl
  | succ fuel ih =>
    intro pending done stats hf
    by_cases hn : pending=[]
    · subst hn
      refine ⟨[],stats,?_,rfl,?_,rfl,rfl⟩
      · rw [runStatic,if_pos rfl,List.append_nil]
      · rw [List.map_nil,batched_nil]
        rfl
    · have hpos := List.length_pos_of_ne_nil hn
      have hsplit := congrArg List.sum (congrArg (List.map (promptLength stopAfter))
        (List.take_append_drop maxBatch pending))
      rw [List.map_append,List.sum_append] at hsplit
      have hlong := longest_le_sum ((pending.take maxBatch).map (promptLength stopAfter))
      have hlen : (pending.drop maxBatch).length=pending.length-maxBatch := List.length_drop
      rw [fuelFor] at hf
      obtain ⟨counted,hh,hd,ho,hc⟩ := holdBatch_eq stopAfter maxBatch (pending.take maxBatch) fuel
        0 {stats with
          admissions := stats.admissions+(openBatch (pending.take maxBatch)).length}
        (by omega) (Nat.zero_le _)
      generalize hheld : batchAfter stopAfter
        (longest ((pending.take maxBatch).map (promptLength stopAfter))) (pending.take maxBatch)=held
        at hh
      obtain ⟨later,last,hr,hv,hd',ho',hc'⟩ := ih (pending.drop maxBatch)
        (done++held) {counted with completions := counted.completions+held.length}
        (by rw [fuelFor,hlen]; omega)
      refine ⟨held++later,last,?_,?_,?_,?_,?_⟩
      · rw [runStatic,if_neg hn]
        simp only [openBatch_eq stopAfter] at hh ⊢
        rw [hh]
        simp only [Option.bind_eq_bind,Option.bind_some]
        rw [hr,List.append_assoc]
      · rw [List.map_append,hv,←hheld,held_verdicts,←List.map_append,List.take_append_drop]
      · rw [hd',hd,batched_cons hb (fun hx => hn (List.map_eq_nil_iff.mp hx)),List.map_take,
          List.map_drop]
        simp only [Nat.sub_zero]
        omega
      · have hw : workAfter 0 ((pending.take maxBatch).map (promptLength stopAfter))=
            ((pending.take maxBatch).map (promptLength stopAfter)).sum := by
          rw [workAfter]
          simp only [Nat.sub_zero,List.map_id']
        rw [ho',ho,hw]
        simp only
        omega
      · have hheldlen : held.length=(pending.take maxBatch).length := by
          rw [←hheld,batchAfter,List.length_map,List.length_zipIdx]
        rw [hc',hc,hheldlen,List.length_take,hlen]
        simp only
        omega

end CudaForge.StaticBatching
