import CudaForge.BinaryFloats
import CudaForge.InterruptedLoops
import CudaForge.PythonBuiltins

/-!
# The training loop

The loop of `train` over epochs and micro-batches: gradients are accumulated,
clipped and handed to the optimiser, the learning-rate schedule is stepped, and
`max_steps` leaves both loops. What a micro-batch contributes, how long it is and
how gradients are clipped are given, and so is what constructing the schedule
raises, if anything. The schedule raises when it is stepped more often than it
was told. Beside the state stand the micro-batches that were drawn and the
windows in which their gradients were handed over.
-/

namespace CudaForge.TrainingLoop

open BinaryFloats InterruptedLoops PythonBuiltins

/-- The part of `TrainingConfig` that the loop and its schedule read, as it is
checked. -/
structure TrainingConfig where
  /-- Micro-batches to an optimiser step. -/
  gradientAccumulationSteps : ℕ
  /-- Passes over the data; a negative number counts as none. -/
  epochs : ℕ
  /-- The cap on optimiser steps, if it is positive. -/
  maxSteps : ℤ
  /-- The part of the steps in which the learning rate rises. -/
  warmupRatio : ℚ
  /-- `gradient_accumulation_steps must be positive`. -/
  accumulation_pos : 0<gradientAccumulationSteps
  /-- `set either epochs or max_steps to a positive value`. -/
  bounded : 0<epochs ∨ 0 < maxSteps
  /-- `warmup_ratio must be in [0, 1)`. -/
  warmup_range : 0≤warmupRatio ∧ warmupRatio<1

/-- A loader: the micro-batches of each epoch, always as many. -/
structure Loader (β : Type) where
  /-- `len(loader)`. -/
  length : ℕ
  /-- What iterating over it yields in an epoch. -/
  batches : ℕ → List β
  /-- Every pass yields as many. -/
  length_eq : ∀ epoch, (batches epoch).length=length

/-- What is trained. -/
structure Task (β V : Type) where
  /-- The gradient of a micro-batch's loss after so many optimiser steps. -/
  gradient : ℕ → β → V
  /-- The loss itself. -/
  loss : ℕ → β → ℚ
  /-- How many tokens a micro-batch has. -/
  tokens : β → ℕ
  /-- `clip_grad_norm_`. -/
  clip : V → V

/-- The state of the loop. -/
structure TrainState (β V : Type) [Zero V] where
  /-- Optimiser steps. -/
  step : ℕ := 0
  /-- The current epoch. -/
  epoch : ℕ := 0
  /-- Tokens seen. -/
  tokensSeen : ℕ := 0
  /-- The least loss at a step, infinite at first. -/
  bestLoss : Option ℚ := none
  /-- Micro-batches since the last step. -/
  accumulated : ℕ := 0
  /-- The gradient that they have added up to. -/
  gradient : V := 0
  /-- Calls of `scheduler.step`. -/
  schedulerSteps : ℕ := 0
  /-- What each optimiser step was handed. -/
  handed : List V := []
  /-- The micro-batches drawn so far. -/
  drawn : List β := []
  /-- Those of each optimiser step. -/
  windows : List (List β) := []
  /-- Those that no step has used yet. -/
  window : List β := []

namespace TrainingConfig

/-- `total_steps`. -/
def totalSteps (config : TrainingConfig) (length : ℕ) : ℤ :=
  let stepsPerEpoch := max (length/config.gradientAccumulationSteps) 1
  if 0<config.maxSteps then config.maxSteps else stepsPerEpoch*config.epochs

/-- A number as a Python float. -/
def pyFloat (x : ℚ) : Except PyError ℚ :=
  match FloatNumber.round binary64 x with
  | .finite y => .ok y
  | _ => .error (.overflowError "int too large to convert to float")

/-- `0.01` as a float. -/
def leastPct : ℚ := 5764607523034235/2^59

/-- `pct_start`: the part of the steps in which the rate rises, from
`warmup_steps`, but not less than a hundredth. -/
def pctStart (config : TrainingConfig) (length : ℕ) : Except PyError ℚ := do
  let product ← pyFloat ((← pyFloat (config.totalSteps length))*config.warmupRatio)
  let warmupSteps := product.num.tdiv product.den
  let share ← pyFloat (warmupSteps/(max (config.totalSteps length) 1 : ℤ))
  .ok (max share leastPct)

/-- What constructing the schedule raises, if anything. -/
def scheduleError (oneCycleLR : ℤ → ℚ → Option PyError) (config : TrainingConfig)
    (length : ℕ) : Option PyError :=
  match config.pctStart length with
  | .error error => some error
  | .ok pct => oneCycleLR (max (config.totalSteps length) 1) pct

/-- The number of steps that the schedule is constructed with. -/
def budget (config : TrainingConfig) (length : ℕ) : ℕ := (max (config.totalSteps length) 1).toNat

/-- Whether `max_steps` ends the training after so many steps. -/
def Capped (config : TrainingConfig) (step : ℕ) : Prop := 0<config.maxSteps ∧ config.maxSteps ≤ step

instance (config : TrainingConfig) (step : ℕ) : Decidable (config.Capped step) :=
  inferInstanceAs (Decidable (_ ∧ _))

end TrainingConfig

section Loop

variable {β V : Type} [AddCommGroup V] [Module ℚ V]

/-- `min` with a loss that may be infinite. -/
def minLoss (best : Option ℚ) (loss : ℚ) : Option ℚ := some (best.elim loss (min · loss))

/-- The gradient that a window of micro-batches adds up to. -/
def windowGradient (config : TrainingConfig) (task : Task β V) (step : ℕ) (window : List β) : V :=
  (window.map (fun batch =>
    (1/config.gradientAccumulationSteps : ℚ)•task.gradient step batch)).sum

/-- The body of the inner loop. -/
def microBatch (config : TrainingConfig) (length : ℕ) (task : Task β V) (s : TrainState β V)
    (batch : β) : Flow PyError (TrainState β V) :=
  let share : ℚ := 1/config.gradientAccumulationSteps
  let loss := task.loss s.step batch*share
  let s := {s with
    gradient := s.gradient+share•task.gradient s.step batch
    accumulated := s.accumulated+1
    tokensSeen := s.tokensSeen+task.tokens batch
    drawn := s.drawn++[batch]
    window := s.window++[batch]}
  if s.accumulated<config.gradientAccumulationSteps then .next s
  else
    let s := {s with
      handed := s.handed++[task.clip s.gradient]
      schedulerSteps := s.schedulerSteps+1
      windows := s.windows++[s.window]
      window := []}
    if config.budget length<s.schedulerSteps then
      .raised (.valueError (s!"Tried to step {s.schedulerSteps} times. " ++
        s!"The specified number of total steps is {config.budget length}")) s
    else
      let s := {s with
        gradient := 0
        accumulated := 0
        step := s.step+1
        bestLoss := minLoss s.bestLoss (loss*config.gradientAccumulationSteps)}
      if config.Capped s.step then .stop s else .next s

/-- The body of the outer loop. -/
def trainEpoch (config : TrainingConfig) (loader : Loader β) (task : Task β V)
    (s : TrainState β V) (epoch : ℕ) : Flow PyError (TrainState β V) :=
  match loop (microBatch config loader.length task) (loader.batches epoch)
      {s with epoch := epoch} with
  | .next s => if config.Capped s.step then .stop s else .next s
  | .stop s => if config.Capped s.step then .stop s else .next s
  | .raised error s => .raised error s

/-- The loops of `train`. -/
def trainLoops (config : TrainingConfig) (loader : Loader β) (task : Task β V) :
    Flow PyError (TrainState β V) :=
  loop (trainEpoch config loader task) (List.range config.epochs) {}

/-- `train`, up to its evaluation: what constructing a schedule of so many steps
and such a `pct_start` raises is given. -/
def train (oneCycleLR : ℤ → ℚ → Option PyError) (config : TrainingConfig) (loader : Loader β)
    (task : Task β V) : Flow PyError (TrainState β V) :=
  match config.scheduleError oneCycleLR loader.length with
  | some error => .raised error {}
  | none => trainLoops config loader task

end Loop

/-- The step at which the training is left early: the cap, or the first one
that the schedule does not have. -/
def TrainingConfig.limit (config : TrainingConfig) (length : ℕ) : ℕ :=
  if 0<config.maxSteps then config.maxSteps.toNat else config.budget length+1

section Limits

variable {config : TrainingConfig} {length : ℕ}

/-- With a cap the schedule is as long as the cap. -/
theorem budget_capped (h : 0<config.maxSteps) : config.budget length=config.maxSteps.toNat := by
  rw [TrainingConfig.budget,TrainingConfig.totalSteps,if_pos h]
  omega

/-- Without one it has the whole windows of each epoch, and at least one. -/
theorem budget_uncapped (h : ¬0<config.maxSteps) : config.budget length=
    max (length/config.gradientAccumulationSteps) 1*config.epochs := by
  have hepochs : 0<config.epochs := config.bounded.resolve_right h
  have hone : 1 ≤ max (length/config.gradientAccumulationSteps) 1*config.epochs :=
    Nat.mul_pos (lt_of_lt_of_le Nat.one_pos (le_max_right _ _)) hepochs
  rw [TrainingConfig.budget,TrainingConfig.totalSteps,if_neg h]
  omega

/-- The schedule raises at the limit unless that is the cap. -/
theorem budget_lt_iff {step : ℕ} (h : step≤config.limit length) :
    config.budget length < step ↔ ¬0<config.maxSteps ∧ step=config.limit length := by
  rw [TrainingConfig.limit] at h ⊢
  split at h
  · next hpos =>
    rw [budget_capped hpos]
    constructor
    · intro hlt
      omega
    · rintro ⟨hn,_⟩
      exact absurd hpos hn
  · next hpos =>
    rw [if_neg hpos]
    constructor
    · intro hlt
      exact ⟨hpos,by omega⟩
    · rintro ⟨_,he⟩
      omega

/-- At least one step may be taken. -/
theorem limit_pos : 0<config.limit length := by
  rw [TrainingConfig.limit]
  split
  · omega
  · exact Nat.succ_pos _

/-- The training is capped at the limit, where that is the cap. -/
theorem capped_iff {step : ℕ} (h : step≤config.limit length) :
    config.Capped step ↔ 0<config.maxSteps ∧ step=config.limit length := by
  rw [TrainingConfig.Capped,TrainingConfig.limit]
  rw [TrainingConfig.limit] at h
  split at h
  · next hpos =>
    rw [if_pos hpos]
    omega
  · next hpos =>
    constructor
    · rintro ⟨hp,_⟩
      exact absurd hp hpos
    · rintro ⟨hp,_⟩
      exact absurd hp hpos

/-- The windows of some epochs are those of each and those of what each leaves
over. -/
theorem div_eq_add (epochs length size : ℕ) (h : 0<size) :
    epochs*length/size=epochs*(length/size)+epochs*(length%size)/size := by
  have he : epochs*length=size*(epochs*(length/size))+epochs*(length%size) := by
    rw [Nat.mul_left_comm,←Nat.mul_add,Nat.div_add_mod]
  rw [he,Nat.mul_add_div h]

end Limits

section Runs

variable {β V : Type} [AddCommGroup V] [Module ℚ V] {config : TrainingConfig} {loader : Loader β}
  {length : ℕ} {task : Task β V} {s : TrainState β V}

/-- The drawn micro-batches in windows: each complete one was handed to one
optimiser step. -/
structure Windowed (config : TrainingConfig) (task : Task β V) (s : TrainState β V) : Prop where
  drawn : s.windows.flatten++s.window=s.drawn
  full : ∀ window∈s.windows, window.length=config.gradientAccumulationSteps
  short : s.window.length<config.gradientAccumulationSteps
  handed : s.handed=s.windows.mapIdx
    (fun step window => task.clip (windowGradient config task step window))
  scheduled : s.schedulerSteps=s.windows.length

/-- The state while the training goes on. -/
structure Running (config : TrainingConfig) (length : ℕ) (task : Task β V)
    (s : TrainState β V) : Prop extends Windowed config task s where
  accumulated : s.accumulated=s.window.length
  step : s.step=s.windows.length
  gradient : s.gradient=windowGradient config task s.step s.window
  going : s.windows.length<config.limit length

/-- The state in which it was left early. -/
structure Ended (config : TrainingConfig) (length : ℕ) (task : Task β V)
    (s : TrainState β V) : Prop extends Windowed config task s where
  window : s.window=[]
  limit : s.windows.length=config.limit length

/-- A window grows by one micro-batch. -/
theorem windowGradient_append (step : ℕ) (window : List β) (batch : β) :
    windowGradient config task step (window++[batch])=
      windowGradient config task step window+
        (1/config.gradientAccumulationSteps : ℚ)•task.gradient step batch := by
  rw [windowGradient,List.map_append,List.sum_append]
  exact congrArg _ (List.sum_singleton)

/-- The state once a micro-batch was accumulated. -/
def accumulate (config : TrainingConfig) (task : Task β V) (s : TrainState β V) (batch : β) :
    TrainState β V :=
  {s with
    gradient := s.gradient+(1/config.gradientAccumulationSteps : ℚ)•task.gradient s.step batch
    accumulated := s.accumulated+1
    tokensSeen := s.tokensSeen+task.tokens batch
    drawn := s.drawn++[batch]
    window := s.window++[batch]}

/-- The state once its gradient was handed over. -/
def handOver (task : Task β V) (s : TrainState β V) : TrainState β V :=
  {s with
    handed := s.handed++[task.clip s.gradient]
    schedulerSteps := s.schedulerSteps+1
    windows := s.windows++[s.window]
    window := []}

/-- A complete window is handed over whole. -/
theorem handOver_windowed (h : Running config length task s) (batch : β)
    (hfull : s.window.length+1=config.gradientAccumulationSteps) :
    Windowed config task (handOver task (accumulate config task s batch)) where
  drawn := by
    change (s.windows++[s.window++[batch]]).flatten++[]=s.drawn++[batch]
    rw [←h.drawn,List.append_nil,List.flatten_append,List.flatten_singleton,List.append_assoc]
  full := by
    intro window hm
    rcases List.mem_append.mp hm with hm|hm
    · exact h.full window hm
    · rw [List.mem_singleton.mp hm]
      exact List.length_append.trans hfull
  short := config.accumulation_pos
  handed := by
    change s.handed++[task.clip (s.gradient+_)]=(s.windows++[s.window++[batch]]).mapIdx _
    rw [List.mapIdx_append,List.mapIdx_singleton,h.handed,h.gradient,←windowGradient_append,
      h.step,Nat.zero_add]
  scheduled := by
    change s.schedulerSteps+1=(s.windows++[s.window++[batch]]).length
    rw [h.scheduled,List.length_append]
    rfl

/-- One micro-batch. -/
theorem microBatch_meets (h : Running config length task s) (batch : β) :
    (microBatch config length task s batch).Meets
      (fun t => Running config length task t ∧ t.drawn=s.drawn++[batch])
      (fun t => (Ended config length task t ∧ t.drawn=s.drawn++[batch]) ∧ config.Capped t.step)
      (fun _ t => Ended config length task t ∧ t.drawn=s.drawn++[batch]) := by
  have hacc := h.accumulated
  have hgoing := h.going
  have hshort := h.short
  have hlen : (handOver task (accumulate config task s batch)).windows.length=
      s.windows.length+1 := List.length_append
  have hsched : s.schedulerSteps+1≤config.limit length := by rw [h.scheduled]; exact hgoing
  have hstep : s.step+1≤config.limit length := by rw [h.step]; exact hgoing
  simp only [microBatch]
  split
  · next hlt =>
    refine ⟨⟨⟨?_,h.full,?_,h.handed,h.scheduled⟩,?_,h.step,?_,hgoing⟩,rfl⟩
    · change s.windows.flatten++(s.window++[batch])=s.drawn++[batch]
      rw [←h.drawn,List.append_assoc]
    · rw [List.length_append]
      exact hacc ▸ hlt
    · rw [List.length_append,hacc]
      rfl
    · rw [h.gradient,windowGradient_append]
  · next hge =>
    have hfull : s.window.length+1=config.gradientAccumulationSteps := by omega
    have hw := handOver_windowed h batch hfull
    split
    · next hover =>
      refine ⟨⟨hw,rfl,?_⟩,rfl⟩
      rw [budget_lt_iff hsched] at hover
      exact hlen.trans (by rw [←hover.2,h.scheduled])
    · next hover =>
      split
      · next hcap =>
        refine ⟨⟨⟨⟨hw.drawn,hw.full,hw.short,hw.handed,hw.scheduled⟩,rfl,?_⟩,rfl⟩,hcap⟩
        have he := ((capped_iff hstep).mp hcap).2
        exact hlen.trans (by rw [←he,h.step])
      · next hcap =>
        refine ⟨⟨⟨hw.drawn,hw.full,hw.short,hw.handed,hw.scheduled⟩,rfl,?_,rfl,?_⟩,rfl⟩
        · exact (congrArg (·+1) h.step).trans hlen.symm
        · refine hlen.trans_lt (lt_of_le_of_ne hgoing ?_)
          intro he
          rw [capped_iff hstep,h.step] at hcap
          rw [budget_lt_iff hsched,h.scheduled] at hover
          exact hcap ⟨by_contra (fun hn => hover ⟨hn,he⟩),he⟩

/-- The training is in one of two states, with a prefix of the micro-batches
drawn; a state that goes on has drawn all of them. -/
theorem trainEpoch_meets (h : Running config loader.length task s) (epoch : ℕ) :
    (trainEpoch config loader task s epoch).Meets
      (fun t => Running config loader.length task t ∧ t.drawn=s.drawn++loader.batches epoch)
      (fun t => Ended config loader.length task t ∧ t.drawn<+:s.drawn++loader.batches epoch)
      (fun _ t => Ended config loader.length task t ∧
        t.drawn<+:s.drawn++loader.batches epoch) := by
  have hstart : Running config loader.length task {s with epoch := epoch} :=
    ⟨⟨h.drawn,h.full,h.short,h.handed,h.scheduled⟩,h.accumulated,h.step,h.gradient,h.going⟩
  have hloop := loop_meets (microBatch config loader.length task)
    (P := fun done t => Running config loader.length task t ∧ t.drawn=s.drawn++done)
    (S := fun done t => (Ended config loader.length task t ∧ t.drawn=s.drawn++done) ∧
      config.Capped t.step)
    (R := fun done _ t => Ended config loader.length task t ∧ t.drawn=s.drawn++done)
    ?_ (loader.batches epoch) ⟨hstart,(List.append_nil s.drawn).symm⟩
  · rw [trainEpoch]
    cases hl : loop (microBatch config loader.length task) (loader.batches epoch)
        {s with epoch := epoch} with
    | next t =>
      rw [hl] at hloop
      obtain ⟨hrun,hd⟩ := hloop
      have hn : ¬config.Capped t.step := by
        rw [capped_iff (hrun.step ▸ hrun.going.le),hrun.step]
        exact fun hc => hrun.going.ne hc.2
      simp only [if_neg hn]
      exact ⟨hrun,hd⟩
    | stop t =>
      rw [hl] at hloop
      obtain ⟨taken,hp,⟨hend,hd⟩,hcap⟩ := hloop
      simp only [if_pos hcap]
      exact ⟨hend,hd ▸ (List.prefix_append_right_inj s.drawn).mpr hp⟩
    | raised error t =>
      rw [hl] at hloop
      obtain ⟨taken,hp,hend,hd⟩ := hloop
      exact ⟨hend,hd ▸ (List.prefix_append_right_inj s.drawn).mpr hp⟩
  · rintro done t batch ⟨hrun,hd⟩
    rw [←List.append_assoc,←hd]
    exact microBatch_meets hrun batch

/-- The micro-batches of some epochs. -/
def Loader.drawnIn (loader : Loader β) (epochs : List ℕ) : List β := epochs.flatMap loader.batches

/-- The training as a whole. -/
theorem trainLoops_meets (config : TrainingConfig) (loader : Loader β) (task : Task β V) :
    (trainLoops config loader task).Meets
      (fun t => Running config loader.length task t ∧
        t.drawn=loader.drawnIn (List.range config.epochs))
      (fun t => Ended config loader.length task t ∧
        t.drawn<+:loader.drawnIn (List.range config.epochs))
      (fun _ t => Ended config loader.length task t ∧
        t.drawn<+:loader.drawnIn (List.range config.epochs)) := by
  have hstart : Running config loader.length task {} :=
    ⟨⟨rfl,fun _ hm => absurd hm List.not_mem_nil,config.accumulation_pos,rfl,rfl⟩,rfl,rfl,rfl,
      limit_pos⟩
  have hgrow : ∀ {before after : List ℕ}, before<+:after →
      loader.drawnIn before<+:loader.drawnIn after := by
    rintro before _ ⟨rest,rfl⟩
    exact ⟨rest.flatMap loader.batches,List.flatMap_append.symm⟩
  have hfirst : Running config loader.length task {} ∧
      ({} : TrainState β V).drawn=loader.drawnIn [] := ⟨hstart,rfl⟩
  have hloop := loop_meets (trainEpoch config loader task)
    (P := fun done t => Running config loader.length task t ∧ t.drawn=loader.drawnIn done)
    (S := fun done t => Ended config loader.length task t ∧ t.drawn<+:loader.drawnIn done)
    (R := fun done _ t => Ended config loader.length task t ∧ t.drawn<+:loader.drawnIn done)
    ?_ (List.range config.epochs) hfirst
  · refine hloop.imp (fun _ h => h) ?_ ?_
    · rintro t ⟨taken,hp,hend,hd⟩
      exact ⟨hend,hd.trans (hgrow hp)⟩
    · rintro error t ⟨taken,hp,hend,hd⟩
      exact ⟨hend,hd.trans (hgrow hp)⟩
  · rintro done t epoch ⟨hrun,hd⟩
    have he : loader.drawnIn (done++[epoch])=t.drawn++loader.batches epoch := by
      rw [Loader.drawnIn,List.flatMap_append,List.flatMap_singleton,hd]
      rfl
    rw [he]
    exact trainEpoch_meets hrun epoch

/-- Complete windows and the rest make up what was drawn. -/
theorem Windowed.length_drawn (h : Windowed config task s) :
    s.windows.length*config.gradientAccumulationSteps+s.window.length=s.drawn.length := by
  rw [←h.drawn,List.length_append,List.length_flatten,
    List.map_congr_left h.full,List.map_const',List.sum_replicate,smul_eq_mul]

/-- The epochs have equally many micro-batches. -/
theorem Loader.length_drawnIn (loader : Loader β) (epochs : ℕ) :
    (loader.drawnIn (List.range epochs)).length=epochs*loader.length := by
  rw [Loader.drawnIn,List.length_flatMap,List.map_congr_left (fun e _ => loader.length_eq e),
    List.map_const',List.sum_replicate,List.length_range,smul_eq_mul]

/-- What is left of a training: windows over the micro-batches up to the
limit. -/
theorem trainLoops_windowed (config : TrainingConfig) (loader : Loader β) (task : Task β V) :
    Windowed config task (trainLoops config loader task).state ∧
      (trainLoops config loader task).state.drawn=(loader.drawnIn (List.range config.epochs)).take
        (config.limit loader.length*config.gradientAccumulationSteps) := by
  have hpos := config.accumulation_pos
  have hended : ∀ t, Ended config loader.length task t ∧
      t.drawn<+:loader.drawnIn (List.range config.epochs) →
      Windowed config task t ∧ t.drawn=(loader.drawnIn (List.range config.epochs)).take
        (config.limit loader.length*config.gradientAccumulationSteps) := by
    rintro t ⟨hend,hp⟩
    refine ⟨hend.toWindowed,?_⟩
    rw [List.prefix_iff_eq_take.mp hp,←hend.length_drawn,hend.window,hend.limit]
    rfl
  refine ((trainLoops_meets config loader task).imp ?_ hended (fun _ => hended)).state
  rintro t ⟨hrun,hd⟩
  refine ⟨hrun.toWindowed,?_⟩
  rw [hd,List.take_of_length_le]
  rw [←hd,←hrun.length_drawn]
  have hle := Nat.mul_le_mul_right config.gradientAccumulationSteps
    (Nat.succ_le_of_lt hrun.going)
  rw [Nat.succ_mul] at hle
  have hshort := hrun.short
  omega

/-- How many optimiser steps a training takes. -/
theorem trainLoops_length (config : TrainingConfig) (loader : Loader β) (task : Task β V) :
    (trainLoops config loader task).state.windows.length=
      min (config.limit loader.length)
        (config.epochs*loader.length/config.gradientAccumulationSteps) := by
  obtain ⟨hw,hd⟩ := trainLoops_windowed config loader task
  have hlen := hw.length_drawn
  rw [hd,List.length_take,Loader.length_drawnIn] at hlen
  have hpos := config.accumulation_pos
  have hdiv : (trainLoops config loader task).state.windows.length=
      min (config.limit loader.length*config.gradientAccumulationSteps)
        (config.epochs*loader.length)/config.gradientAccumulationSteps := by
    rw [←hlen,Nat.mul_comm,Nat.mul_add_div hpos,Nat.div_eq_of_lt hw.short,Nat.add_zero]
  rw [hdiv]
  rcases Nat.le_total (config.limit loader.length*config.gradientAccumulationSteps)
    (config.epochs*loader.length) with hle|hle
  · rw [Nat.min_eq_left hle,Nat.mul_div_cancel _ hpos,
      Nat.min_eq_left ((Nat.le_div_iff_mul_le hpos).mpr hle)]
  · rw [Nat.min_eq_right hle,Nat.min_eq_right (Nat.div_le_of_le_mul
      (hle.trans_eq (Nat.mul_comm _ _)))]

/-- A complete window is the piece of the drawn micro-batches at its place. -/
theorem getElem_windows {windows : List (List β)} {rest drawn : List β} {size : ℕ}
    (hdrawn : windows.flatten++rest=drawn) (hfull : ∀ window∈windows, window.length=size)
    {step : ℕ} (h : step<windows.length) : windows[step]=(drawn.drop (step*size)).take size := by
  induction windows generalizing drawn step with
  | nil => exact absurd h (Nat.not_lt_zero _)
  | cons window windows ih =>
    have hw := hfull window List.mem_cons_self
    rw [List.flatten_cons,List.append_assoc] at hdrawn
    subst hdrawn
    cases step with
    | zero => rw [Nat.zero_mul,List.drop_zero,List.getElem_cons_zero,←hw,List.take_left]
    | succ step =>
      have hd : (step+1)*size=window.length+step*size := by rw [Nat.succ_mul,hw,Nat.add_comm]
      rw [List.getElem_cons_succ,hd,List.drop_append,List.drop_eq_nil_of_le (by omega),
        List.nil_append,Nat.add_sub_cancel_left]
      exact ih rfl (fun other hm => hfull other (List.mem_cons_of_mem _ hm))
        (Nat.lt_of_succ_lt_succ h)

/-- The schedule is not stepped more often than it was told exactly when
`max_steps` bounds the training, or an epoch is shorter than a window, or what
the epochs leave over does not add up to one more window. -/
theorem loops_kept_iff (config : TrainingConfig) (loader : Loader β) (task : Task β V) :
    (trainLoops config loader task).state.schedulerSteps≤config.budget loader.length ↔
      0<config.maxSteps ∨ loader.length<config.gradientAccumulationSteps ∨
        config.epochs*(loader.length%config.gradientAccumulationSteps)<
          config.gradientAccumulationSteps := by
  have hpos := config.accumulation_pos
  rw [(trainLoops_windowed config loader task).1.scheduled,trainLoops_length,TrainingConfig.limit]
  by_cases hcap : 0<config.maxSteps
  · rw [if_pos hcap,budget_capped hcap]
    exact iff_of_true (Nat.min_le_left _ _) (Or.inl hcap)
  · rw [if_neg hcap,or_iff_right hcap,budget_uncapped hcap,
      div_eq_add config.epochs loader.length config.gradientAccumulationSteps hpos]
    by_cases hshort : loader.length<config.gradientAccumulationSteps
    · refine iff_of_true ?_ (Or.inl hshort)
      have hle : config.epochs*(loader.length%config.gradientAccumulationSteps)/
          config.gradientAccumulationSteps≤config.epochs := by
        refine Nat.div_le_of_le_mul ?_
        rw [Nat.mul_comm config.gradientAccumulationSteps]
        exact Nat.mul_le_mul_left _ (Nat.mod_lt _ hpos).le
      rw [Nat.div_eq_of_lt hshort,Nat.mul_zero,Nat.zero_add,max_eq_right (Nat.zero_le 1),
        Nat.one_mul]
      exact (Nat.min_le_right _ _).trans hle
    · have hone : 1≤loader.length/config.gradientAccumulationSteps :=
        (Nat.one_le_div_iff hpos).mpr (Nat.le_of_not_lt hshort)
      rw [or_iff_right hshort,max_eq_left hone,Nat.mul_comm config.epochs,
        ←Nat.div_eq_zero_iff_lt hpos]
      generalize loader.length/config.gradientAccumulationSteps*config.epochs=whole
      generalize config.epochs*(loader.length%config.gradientAccumulationSteps)/
        config.gradientAccumulationSteps=extra
      omega

/-- Without a schedule nothing is done. -/
theorem train_raised {oneCycleLR : ℤ → ℚ → Option PyError} {error : PyError}
    (h : config.scheduleError oneCycleLR loader.length=some error) :
    train oneCycleLR config loader task=.raised error {} := by
  rw [train,h]

/-- With one the loops are run. -/
theorem train_constructed {oneCycleLR : ℤ → ℚ → Option PyError}
    (h : config.scheduleError oneCycleLR loader.length=none) :
    train oneCycleLR config loader task=trainLoops config loader task := by
  rw [train,h]

/-- The schedule is never stepped more often than it was told exactly when
there is none because its construction raises, or `max_steps` bounds the
training, or an epoch is shorter than a window, or what the epochs leave over
does not add up to one more window. -/
theorem schedule_kept_iff (oneCycleLR : ℤ → ℚ → Option PyError) (config : TrainingConfig)
    (loader : Loader β) (task : Task β V) :
    (train oneCycleLR config loader task).state.schedulerSteps≤config.budget loader.length ↔
      config.scheduleError oneCycleLR loader.length≠none ∨
        0<config.maxSteps ∨ loader.length<config.gradientAccumulationSteps ∨
          config.epochs*(loader.length%config.gradientAccumulationSteps)<
            config.gradientAccumulationSteps := by
  cases hs : config.scheduleError oneCycleLR loader.length with
  | none =>
    rw [train_constructed hs,loops_kept_iff]
    exact (or_iff_right (fun h => h rfl)).symm
  | some error =>
    rw [train_raised hs]
    exact iff_of_true (Nat.zero_le _) (Or.inl (Option.some_ne_none error))

end Runs

/-- What constructing a schedule raises: an error where its first phase ends
with its first step. -/
def phaseError (totalSteps : ℤ) (pct : ℚ) : Option PyError :=
  if binary64.nearest (pct*binary64.nearest totalSteps)=1 then
    some (.zeroDivisionError "float division by zero")
  else none

theorem zero_ratio : (0 : ℚ)≤0 ∧ (0 : ℚ)<1 := by decide

/-- Two epochs of three micro-batches, two to a step. -/
def oddEpochs : TrainingConfig := ⟨2,2,0,0,by decide,by decide,zero_ratio⟩

/-- A loader of three micro-batches that are their own gradients. -/
def threeBatches : Loader ℚ := ⟨3,fun _ => [1,2,3],fun _ => rfl⟩

/-- Gradients that are not clipped. -/
def plainTask : Task ℚ ℚ := ⟨fun _ batch => batch,fun _ batch => batch,fun _ => 1,id⟩

/-- The schedule has two steps and is stepped three times. -/
theorem oddEpochs_overrun :
    (train phaseError oddEpochs threeBatches plainTask).state.schedulerSteps=3 ∧
      oddEpochs.budget threeBatches.length=2 := by
  decide +kernel

theorem default_ratio :
    (0 : ℚ)≤1080863910568919/2^55 ∧ (1080863910568919/2^55 : ℚ)<1 := by norm_num

/-- Forty epochs with the default ratio. -/
def manyEpochs : TrainingConfig :=
  ⟨2,40,0,1080863910568919/2^55,by decide,by decide,default_ratio⟩

/-- One of forty steps warms up, and constructing the schedule raises. -/
example : (train phaseError manyEpochs threeBatches plainTask).state.schedulerSteps=0 := by
  decide +kernel

end CudaForge.TrainingLoop
