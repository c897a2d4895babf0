import CudaForge.CeilDivision
import CudaForge.RowMajor
import CudaForge.TrainingLoop

/-!
# Gradient accumulation

The micro-batches of a shuffled loader cut each epoch into slices, the last of
which may be short. A micro-batch contributes the mean over its own examples,
and a window of them the mean of these means. That is the mean over the
window's examples while its micro-batches are equally long, so it depends on
how the data is split when a short one is accumulated with full ones.
-/

namespace CudaForge.GradientAccumulation

open CeilDivision InterruptedLoops PythonBuiltins RowMajor TrainingLoop

/-- The shuffled order of each epoch. -/
structure Sampler (count : ℕ) where
  /-- The examples in the order in which an epoch draws them. -/
  order : ℕ → List ℕ
  /-- Every epoch draws each once. -/
  perm : ∀ epoch, (order epoch).Perm (List.range count)

/-- One micro-batch: a slice of the epoch's order, short at its end. -/
def slice (order : List ℕ) (batchSize index : ℕ) : List ℕ :=
  (order.drop (index*batchSize)).take batchSize

/-- `DataLoader` with `shuffle=True` and `drop_last=False`. -/
def dataLoader {count : ℕ} (sampler : Sampler count) (batchSize : ℕ) : Loader (List ℕ) where
  length := count ⌈/⌉ batchSize
  batches epoch := (List.range (count ⌈/⌉ batchSize)).map (slice (sampler.order epoch) batchSize)
  length_eq epoch := by rw [List.length_map,List.length_range]

section Means

variable {V : Type} [AddCommGroup V] [Module ℚ V]

/-- The mean over some examples. -/
def mean (value : ℕ → V) (examples : List ℕ) : V :=
  (1/examples.length : ℚ)•(examples.map value).sum

/-- What the examples contribute: gradient and loss after so many optimiser
steps, and a number of tokens. -/
structure Examples (V : Type) where
  /-- The gradient of an example's loss. -/
  gradient : ℕ → ℕ → V
  /-- The loss of an example. -/
  loss : ℕ → ℕ → ℚ
  /-- The tokens of an example. -/
  tokens : ℕ → ℕ

/-- Training on micro-batches whose loss is the mean over their examples. -/
def meanTask (examples : Examples V) (clip : V → V) : Task (List ℕ) V where
  gradient step batch := mean (examples.gradient step) batch
  loss step batch := mean (examples.loss step) batch
  tokens batch := (batch.map examples.tokens).sum
  clip := clip

/-- Every optimiser step was handed the clipped mean over the examples of its
micro-batches, and no example that was drawn is left over. -/
def HandsMeans (examples : Examples V) (clip : V → V) (final : TrainState (List ℕ) V) : Prop :=
  final.handed=final.windows.mapIdx
      (fun step window => clip (mean (examples.gradient step) window.flatten)) ∧
    final.windows.flatten=final.drawn

/-- However the data is shuffled, training hands the means over. -/
def SplitIndependent (oneCycleLR : ℤ → ℚ → Option PyError) (config : TrainingConfig)
    (count batchSize : ℕ) (clip : V → V) : Prop :=
  ∀ (sampler : Sampler count) (examples : Examples V),
    HandsMeans examples clip (train oneCycleLR config (dataLoader sampler batchSize)
      (meanTask examples clip)).state

/-- The micro-batches that are drawn fill their windows. -/
def Filled (config : TrainingConfig) (length : ℕ) : Prop :=
  config.gradientAccumulationSteps∣config.epochs*length ∨
    config.limit length*config.gradientAccumulationSteps≤config.epochs*length

/-- No short micro-batch shares a window with a full one. -/
def Uniform (config : TrainingConfig) (count batchSize : ℕ) : Prop :=
  config.epochs=0 ∨ config.gradientAccumulationSteps=1 ∨ count ⌈/⌉ batchSize=1 ∨
    batchSize∣count ∨
    0<config.maxSteps ∧
      config.maxSteps*config.gradientAccumulationSteps<(count ⌈/⌉ batchSize : ℕ)

/-- Scaling the values scales their mean. -/
theorem mean_smul (weight : ℕ → ℚ) (v : V) (examples : List ℕ) :
    mean (fun e => weight e•v) examples=mean weight examples•v := by
  rw [mean,mean,smul_assoc,List.sum_smul,List.map_map]
  rfl

/-- The mean of equally many means is the mean over everything. -/
theorem windowGradient_uniform {config : TrainingConfig} (examples : Examples V) (clip : V → V)
    (step size : ℕ) {window : List (List ℕ)}
    (hlen : window.length=config.gradientAccumulationSteps)
    (hsize : ∀ batch∈window, batch.length=size) :
    windowGradient config (meanTask examples clip) step window=
      mean (examples.gradient step) window.flatten := by
  have hterm : ∀ batch∈window, (1/config.gradientAccumulationSteps : ℚ)•
      (meanTask examples clip).gradient step batch=
      (1/((config.gradientAccumulationSteps*size : ℕ) : ℚ))•
        (batch.map (examples.gradient step)).sum := by
    intro batch hm
    change _•(1/(batch.length : ℚ))•_=_
    rw [hsize batch hm,smul_smul,one_div_mul_one_div,Nat.cast_mul]
  have hflat : window.flatten.length=config.gradientAccumulationSteps*size := by
    rw [List.length_flatten,List.map_congr_left hsize,List.map_const',List.sum_replicate,hlen,
      smul_eq_mul]
  rw [windowGradient,List.map_congr_left hterm,mean,hflat,List.map_flatten,List.sum_flatten,
    List.map_map,List.smul_sum,List.map_map]
  rfl

end Means

section Splits

variable {count batchSize : ℕ} (sampler : Sampler count)

/-- The micro-batch at a position, counted over all epochs. -/
def batchAt (batchSize position : ℕ) : List ℕ :=
  slice (sampler.order (position/(count ⌈/⌉ batchSize))) batchSize
    (position%(count ⌈/⌉ batchSize))

/-- The loader draws one micro-batch after another. -/
theorem drawnIn_eq (epochs : ℕ) :
    (dataLoader sampler batchSize).drawnIn (List.range epochs)=
      (List.range (epochs*(count ⌈/⌉ batchSize))).map (batchAt sampler batchSize) := by
  induction epochs with
  | zero =>
    rw [Nat.zero_mul]
    rfl
  | succ epochs ih =>
    rw [Loader.drawnIn] at ih ⊢
    rw [List.range_succ,List.flatMap_append,List.flatMap_singleton,ih,Nat.succ_mul,
      List.range_add,List.map_append,List.map_map]
    refine congrArg _ (List.map_congr_left ?_)
    intro index hm
    have hlt := List.mem_range.mp hm
    simp only [Function.comp,batchAt,place_div hlt,place_mod hlt]

/-- The length of a micro-batch. -/
theorem length_batchAt (position : ℕ) : (batchAt sampler batchSize position).length=
    min batchSize (count-position%(count ⌈/⌉ batchSize)*batchSize) := by
  rw [batchAt,slice,List.length_take,List.length_drop,(sampler.perm _).length_eq,
    List.length_range]

/-- Before the last of an epoch they are full. -/
theorem length_batchAt_full (hb : 0<batchSize) {position : ℕ}
    (h : position%(count ⌈/⌉ batchSize)+1<count ⌈/⌉ batchSize) :
    (batchAt sampler batchSize position).length=batchSize := by
  have hlt := ceilDiv_mul_lt hb count
  have hle := Nat.mul_le_mul_right batchSize (Nat.succ_le_of_lt h)
  rw [Nat.succ_mul,Nat.succ_mul] at hle
  rw [length_batchAt]
  omega

variable {V : Type} [AddCommGroup V] [Module ℚ V] {config : TrainingConfig}
  {examples : Examples V} {clip : V → V} {final : TrainState (List ℕ) V}

/-- A complete window holds the micro-batches at its positions. -/
theorem getElem_windows_eq
    (hfinal : final=
      (trainLoops config (dataLoader sampler batchSize) (meanTask examples clip)).state)
    {step : ℕ} (h : step<final.windows.length) :
    final.windows[step]=(List.range config.gradientAccumulationSteps).map
      (fun offset => batchAt sampler batchSize
        (step*config.gradientAccumulationSteps+offset)) := by
  subst hfinal
  obtain ⟨hw,hd⟩ :=
    trainLoops_windowed config (dataLoader sampler batchSize) (meanTask examples clip)
  have hlen := hw.length_drawn
  have hle := Nat.mul_le_mul_right config.gradientAccumulationSteps (Nat.succ_le_of_lt h)
  rw [Nat.succ_mul] at hle
  have hroom : step*config.gradientAccumulationSteps+config.gradientAccumulationSteps≤
      (trainLoops config (dataLoader sampler batchSize)
        (meanTask examples clip)).state.drawn.length := by
    omega
  rw [getElem_windows hw.drawn hw.full h]
  rw [hd,List.length_take] at hroom
  rw [hd,drawnIn_eq]
  rw [drawnIn_eq,List.length_map,List.length_range] at hroom
  refine List.ext_getElem ?_ ?_
  · simp only [List.length_take,List.length_drop,List.length_map,List.length_range]
    omega
  · intro offset _ _
    simp only [List.getElem_take,List.getElem_drop,List.getElem_map,List.getElem_range]

/-- How many optimiser steps there are. -/
theorem length_windows
    (hfinal : final=
      (trainLoops config (dataLoader sampler batchSize) (meanTask examples clip)).state) :
    final.windows.length=min (config.limit (count ⌈/⌉ batchSize))
      (config.epochs*(count ⌈/⌉ batchSize)/config.gradientAccumulationSteps) := by
  subst hfinal
  exact trainLoops_length config (dataLoader sampler batchSize) (meanTask examples clip)

/-- Nothing is left over exactly when the micro-batches fill their windows. -/
theorem flatten_windows_iff
    (hfinal : final=
      (trainLoops config (dataLoader sampler batchSize) (meanTask examples clip)).state) :
    final.windows.flatten=final.drawn ↔ Filled config (count ⌈/⌉ batchSize) := by
  subst hfinal
  obtain ⟨hw,hd⟩ :=
    trainLoops_windowed config (dataLoader sampler batchSize) (meanTask examples clip)
  have hlen := hw.length_drawn
  rw [hd,List.length_take,Loader.length_drawnIn] at hlen
  change _=min (config.limit (count ⌈/⌉ batchSize)*config.gradientAccumulationSteps)
    (config.epochs*(count ⌈/⌉ batchSize)) at hlen
  have hrest := congrArg (·%config.gradientAccumulationSteps) hlen
  simp only [Nat.mul_add_mod',Nat.mod_eq_of_lt hw.short] at hrest
  have hnil : (trainLoops config (dataLoader sampler batchSize)
        (meanTask examples clip)).state.windows.flatten=
      (trainLoops config (dataLoader sampler batchSize) (meanTask examples clip)).state.drawn ↔
      (trainLoops config (dataLoader sampler batchSize)
        (meanTask examples clip)).state.window.length=0 := by
    rw [←hw.drawn,List.self_eq_append_right,List.length_eq_zero_iff]
  rw [hnil,hrest,Filled]
  rcases Nat.le_total (config.limit (count ⌈/⌉ batchSize)*config.gradientAccumulationSteps)
    (config.epochs*(count ⌈/⌉ batchSize)) with hle|hle
  · rw [Nat.min_eq_left hle]
    exact iff_of_true (Nat.mul_mod_left _ _) (Or.inr hle)
  · rw [Nat.min_eq_right hle,←Nat.dvd_iff_mod_eq_zero]
    refine ⟨Or.inl,?_⟩
    rintro (hdvd|hge)
    · exact hdvd
    · exact (le_antisymm hle hge) ▸ Nat.dvd_mul_left _ _

/-- Where no short micro-batch shares a window with a full one, the micro-batches
of a window are equally long. -/
theorem uniform_length (hn : 0<count) (hb : 0<batchSize) (hu : Uniform config count batchSize)
    (hfinal : final=
      (trainLoops config (dataLoader sampler batchSize) (meanTask examples clip)).state)
    {step : ℕ} (h : step<final.windows.length) :
    ∃ size, ∀ batch∈final.windows[step], batch.length=size := by
  have hsteps := length_windows sampler hfinal
  rw [getElem_windows_eq sampler hfinal h]
  have hpos : 0<count ⌈/⌉ batchSize := Nat.pos_of_ne_zero (fun hz =>
    hn.ne' ((ceilDiv_eq_zero_iff hb count).mp hz))
  rcases hu with hu|hu|hu|hu|⟨hcap,hu⟩
  · rw [hu,Nat.zero_mul,Nat.zero_div,Nat.min_zero] at hsteps
    omega
  · refine ⟨(batchAt sampler batchSize step).length,?_⟩
    intro batch hm
    rw [hu,List.range_one,List.map_singleton,List.mem_singleton,Nat.mul_one,Nat.add_zero] at hm
    rw [hm]
  · refine ⟨min batchSize count,?_⟩
    intro batch hm
    obtain ⟨offset,_,rfl⟩ := List.mem_map.mp hm
    rw [length_batchAt,hu,Nat.mod_one,Nat.zero_mul,Nat.sub_zero]
  · refine ⟨batchSize,?_⟩
    intro batch hm
    obtain ⟨offset,_,rfl⟩ := List.mem_map.mp hm
    obtain ⟨whole,rfl⟩ := hu
    have hle : (batchSize*whole) ⌈/⌉ batchSize≤whole :=
      (ceilDiv_le_iff hb _ _).mpr (Nat.mul_comm _ _).le
    rw [length_batchAt]
    have hlt := Nat.mod_lt (step*config.gradientAccumulationSteps+offset) hpos
    have hroom := Nat.mul_le_mul_right batchSize ((Nat.succ_le_of_lt hlt).trans hle)
    rw [Nat.succ_mul,Nat.mul_comm whole] at hroom
    omega
  · refine ⟨batchSize,?_⟩
    intro batch hm
    obtain ⟨offset,ho,rfl⟩ := List.mem_map.mp hm
    have hoffset := List.mem_range.mp ho
    have hlimit : step+1≤config.maxSteps.toNat := by
      have hl := hsteps ▸ Nat.min_le_left _ _
      rw [TrainingConfig.limit,if_pos hcap] at hl
      omega
    have hle := Nat.mul_le_mul_right config.gradientAccumulationSteps hlimit
    rw [Nat.succ_mul] at hle
    have hcast : (config.maxSteps.toNat*config.gradientAccumulationSteps : ℕ)<
        count ⌈/⌉ batchSize := by
      rw [←Int.toNat_of_nonneg hcap.le] at hu
      exact_mod_cast hu
    refine length_batchAt_full sampler hb ?_
    rw [Nat.mod_eq_of_lt (by omega)]
    omega

/-- Then every step is handed the mean over its examples. -/
theorem handed_uniform (hn : 0<count) (hb : 0<batchSize) (hu : Uniform config count batchSize)
    (hfinal : final=
      (trainLoops config (dataLoader sampler batchSize) (meanTask examples clip)).state) :
    final.handed=final.windows.mapIdx
      (fun step window => clip (mean (examples.gradient step) window.flatten)) := by
  have hw : Windowed config (meanTask examples clip) final :=
    hfinal ▸ (trainLoops_windowed config (dataLoader sampler batchSize) (meanTask examples clip)).1
  rw [hw.handed,List.mapIdx_eq_mapIdx_iff]
  intro step h
  obtain ⟨size,hsize⟩ := uniform_length sampler hn hb hu hfinal h
  exact congrArg clip (windowGradient_uniform examples clip step size
    (hw.full _ (List.getElem_mem h)) hsize)

end Splits

section Skewed

/-- The epochs that draw the examples in their order. -/
def inOrder (count : ℕ) : Sampler count := ⟨fun _ => List.range count,fun _ => .refl _⟩

/-- How many micro-batches of a window are short and how many are full, when
only the examples of the short ones count. -/
theorem window_counts {weight : ℕ → ℚ} {short full : ℕ} (hpos : 0<short) (hne : short≠full)
    {window : List (List ℕ)}
    (h : ∀ batch∈window, batch.length=short ∧ (∀ e∈batch, weight e=1) ∨
      batch.length=full ∧ ∀ e∈batch, weight e=0) :
    ∃ s f, s+f=window.length ∧ (window.map (mean weight)).sum=s ∧
      (window.flatten.map weight).sum=s*short ∧ window.flatten.length=s*short+f*full ∧
        ((∃ batch∈window, batch.length=short) → 0<s) ∧
          ((∃ batch∈window, batch.length=full) → 0<f) := by
  induction window with
  | nil =>
    refine ⟨0,0,rfl,?_,?_,?_,?_,?_⟩
    · exact Nat.cast_zero.symm
    · rw [Nat.cast_zero,zero_mul]
      rfl
    · rw [Nat.zero_mul,Nat.zero_mul]
      rfl
    · rintro ⟨_,hm,_⟩
      exact absurd hm List.not_mem_nil
    · rintro ⟨_,hm,_⟩
      exact absurd hm List.not_mem_nil
  | cons batch window ih =>
    obtain ⟨s,f,hsf,hmean,hsum,hlen,hs,hf⟩ :=
      ih (fun other hm => h other (List.mem_cons_of_mem _ hm))
    rcases h batch List.mem_cons_self with ⟨hl,hw⟩|⟨hl,hw⟩
    · have hb : (batch.map weight).sum=short := by
        rw [List.map_congr_left hw,List.map_const',List.sum_replicate,hl,nsmul_one]
      have hne0 : (short : ℚ)≠0 := Nat.cast_ne_zero.mpr hpos.ne'
      refine ⟨s+1,f,?_,?_,?_,?_,fun _ => Nat.succ_pos s,?_⟩
      · rw [List.length_cons]
        omega
      · rw [List.map_cons,List.sum_cons,hmean,mean,hb,hl,smul_eq_mul,one_div_mul_cancel hne0,
          Nat.cast_succ,add_comm]
      · rw [List.flatten_cons,List.map_append,List.sum_append,hb,hsum,Nat.cast_succ]
        ring
      · rw [List.flatten_cons,List.length_append,hl,hlen,Nat.succ_mul]
        omega
      · rintro ⟨other,hm,ho⟩
        rcases List.mem_cons.mp hm with rfl|hm
        · exact absurd (hl.symm.trans ho) hne
        · exact hf ⟨other,hm,ho⟩
    · have hb : (batch.map weight).sum=0 := by
        rw [List.map_congr_left hw,List.map_const',List.sum_replicate,nsmul_zero]
      refine ⟨s,f+1,?_,?_,?_,?_,?_,fun _ => Nat.succ_pos f⟩
      · rw [List.length_cons]
        omega
      · rw [List.map_cons,List.sum_cons,hmean,mean,hb,smul_zero,zero_add]
      · rw [List.flatten_cons,List.map_append,List.sum_append,hb,hsum,zero_add]
      · rw [List.flatten_cons,List.length_append,hl,hlen,Nat.succ_mul]
        omega
      · rintro ⟨other,hm,ho⟩
        rcases List.mem_cons.mp hm with rfl|hm
        · exact absurd (hl.symm.trans ho) hne.symm
        · exact hs ⟨other,hm,ho⟩

/-- Weighing short and full micro-batches alike is not the mean over their
examples. -/
theorem weights_differ {s f short full : ℕ} (hs : 0<s) (hf : 0<f) (hpos : 0<short)
    (hne : short≠full) :
    (s : ℚ)/((s+f : ℕ) : ℚ)≠(s*short : ℕ)/((s*short+f*full : ℕ) : ℚ) := by
  intro he
  have hk : ((s+f : ℕ) : ℚ)≠0 := Nat.cast_ne_zero.mpr (by omega)
  have hsize : ((s*short+f*full : ℕ) : ℚ)≠0 := by
    have := Nat.mul_pos hs hpos
    exact Nat.cast_ne_zero.mpr (by omega)
  rw [div_eq_div_iff hk hsize] at he
  have hn : s*(s*short+f*full)=s*short*(s+f) := by exact_mod_cast he
  have hleft : s*(s*short+f*full)=s*s*short+s*f*full := by ring
  have hright : s*short*(s+f)=s*s*short+s*f*short := by ring
  have hc : s*f*full=s*f*short := Nat.add_left_cancel (hleft.symm.trans (hn.trans hright))
  exact hne (Nat.eq_of_mul_eq_mul_left (Nat.mul_pos hs hf) hc).symm

variable {count batchSize : ℕ}

/-- Whether an example belongs to the last micro-batch of an epoch that draws
them in order. -/
def mark (count batchSize e : ℕ) : ℚ :=
  if ((count ⌈/⌉ batchSize)-1)*batchSize≤e then 1 else 0

/-- In order, the last micro-batch of an epoch holds the marked examples. -/
theorem batchAt_last (hb : 0<batchSize) {position : ℕ}
    (h : position%(count ⌈/⌉ batchSize)+1=count ⌈/⌉ batchSize) :
    (batchAt (inOrder count) batchSize position).length=
        count-((count ⌈/⌉ batchSize)-1)*batchSize ∧
      ∀ e∈batchAt (inOrder count) batchSize position, mark count batchSize e=1 := by
  have hle := le_ceilDiv_mul hb count
  have hi : position%(count ⌈/⌉ batchSize)=(count ⌈/⌉ batchSize)-1 := by omega
  have hsplit : (count ⌈/⌉ batchSize)*batchSize=
      ((count ⌈/⌉ batchSize)-1)*batchSize+batchSize := by
    rw [←Nat.succ_mul]
    congr 1
    omega
  constructor
  · rw [length_batchAt,hi]
    omega
  · intro e hm
    rw [batchAt,slice,hi] at hm
    obtain ⟨index,hlt,he⟩ := List.mem_iff_getElem.mp (List.mem_of_mem_take hm)
    rw [List.getElem_drop] at he
    rw [mark,if_pos]
    rw [←he]
    simp only [inOrder,List.getElem_range]
    omega

/-- The others hold none of them. -/
theorem batchAt_earlier (hb : 0<batchSize) {position : ℕ}
    (h : position%(count ⌈/⌉ batchSize)+1<count ⌈/⌉ batchSize) :
    (batchAt (inOrder count) batchSize position).length=batchSize ∧
      ∀ e∈batchAt (inOrder count) batchSize position, mark count batchSize e=0 := by
  refine ⟨length_batchAt_full (inOrder count) hb h,?_⟩
  intro e hm
  rw [batchAt,slice] at hm
  obtain ⟨index,hlt,he⟩ := List.mem_iff_getElem.mp hm
  rw [List.length_take] at hlt
  rw [List.getElem_take,List.getElem_drop] at he
  have hroom := Nat.mul_le_mul_right batchSize
    (show position%(count ⌈/⌉ batchSize)+1≤(count ⌈/⌉ batchSize)-1 by omega)
  rw [Nat.succ_mul] at hroom
  rw [mark,if_neg]
  rw [←he]
  simp only [inOrder,List.getElem_range]
  omega

variable {V : Type} [AddCommGroup V] [Module ℚ V] {config : TrainingConfig} {clip : V → V}

/-- Every marked example has one gradient and the others have none. -/
def marked (count batchSize : ℕ) (v : V) : Examples V :=
  ⟨fun _ e => mark count batchSize e•v,fun _ _ => 0,fun _ => 1⟩

/-- What a window of them adds up to. -/
theorem windowGradient_marked (v : V) (step : ℕ) (window : List (List ℕ)) :
    windowGradient config (meanTask (marked count batchSize v) clip) step window=
      ((window.map (mean (mark count batchSize))).sum/
        (config.gradientAccumulationSteps : ℚ))•v := by
  have hterm : ∀ batch∈window, (1/config.gradientAccumulationSteps : ℚ)•
      (meanTask (marked count batchSize v) clip).gradient step batch=
      (1/config.gradientAccumulationSteps : ℚ)•(mean (mark count batchSize) batch•v) := by
    intro batch _
    exact congrArg _ (mean_smul _ v batch)
  rw [windowGradient,List.map_congr_left hterm,one_div,div_eq_inv_mul,mul_smul,
    List.sum_smul,List.smul_sum,List.map_map,List.map_map]
  rfl

/-- Short and full micro-batches in one window: the step that uses it is not
handed the mean. -/
theorem handed_marked (window : List (List ℕ)) (short : ℕ) {v : V} (hv : v≠0)
    (hclip : ∀ c : ℚ, 0≤c → c≤1 → clip (c•v)=c•v) (hpos : 0<short)
    (hne : short≠batchSize)
    (hlen : window.length=config.gradientAccumulationSteps)
    (hbatches : ∀ batch∈window,
      batch.length=short ∧ (∀ e∈batch, mark count batchSize e=1) ∨
        batch.length=batchSize ∧ ∀ e∈batch, mark count batchSize e=0)
    (hshort : ∃ batch∈window, batch.length=short)
    (hfull : ∃ batch∈window, batch.length=batchSize) (step : ℕ) :
    clip (windowGradient config (meanTask (marked count batchSize v) clip) step window)≠
      clip (mean ((marked count batchSize v).gradient step) window.flatten) := by
  obtain ⟨s,f,hsf,hmean,hsum,hsize,hs,hf⟩ := window_counts hpos hne hbatches
  have hs := hs hshort
  have hf := hf hfull
  have hk : config.gradientAccumulationSteps=s+f := hlen.symm.trans hsf.symm
  have hleft : windowGradient config (meanTask (marked count batchSize v) clip) step window=
      ((s : ℚ)/((s+f : ℕ) : ℚ))•v := by
    rw [windowGradient_marked,hmean,hk]
  have hright : mean ((marked count batchSize v).gradient step) window.flatten=
      (((s*short : ℕ) : ℚ)/((s*short+f*batchSize : ℕ) : ℚ))•v := by
    change mean (fun e => mark count batchSize e•v) window.flatten=_
    rw [mean_smul,mean,hsum,hsize,smul_eq_mul,one_div_mul_eq_div,Nat.cast_mul]
  have hunit : ∀ a b : ℕ, a≤b → (0 : ℚ)≤(a : ℚ)/(b : ℚ) ∧ (a : ℚ)/(b : ℚ)≤1 := by
    intro a b hab
    exact ⟨div_nonneg (Nat.cast_nonneg _) (Nat.cast_nonneg _),
      div_le_one_of_le₀ (Nat.cast_le.mpr hab) (Nat.cast_nonneg _)⟩
  obtain ⟨h0,h1⟩ := hunit s (s+f) (Nat.le_add_right _ _)
  obtain ⟨h0',h1'⟩ := hunit (s*short) (s*short+f*batchSize) (Nat.le_add_right _ _)
  rw [hleft,hright,hclip _ h0 h1,hclip _ h0' h1']
  intro he
  exact weights_differ hs hf hpos hne (smul_left_injective ℚ hv he)

/-- The first short micro-batch is used by some step, unless `max_steps` ends
the training before. -/
theorem last_used (hepochs : config.epochs≠0) {length : ℕ} (hlength : 0<length)
    (hcap : ¬(0<config.maxSteps ∧ config.maxSteps*config.gradientAccumulationSteps<length))
    (hfilled : Filled config length) :
    (length-1)/config.gradientAccumulationSteps<
      min (config.limit length) (config.epochs*length/config.gradientAccumulationSteps) := by
  have hpos := config.accumulation_pos
  have hepoch : length≤config.epochs*length := Nat.le_mul_of_pos_left _
    (Nat.pos_of_ne_zero hepochs)
  have hlimit : (length-1)/config.gradientAccumulationSteps<config.limit length := by
    rw [TrainingConfig.limit]
    split
    · next hpositive =>
      rw [Nat.div_lt_iff_lt_mul hpos]
      have hge : (length : ℤ)≤config.maxSteps*config.gradientAccumulationSteps :=
        not_lt.mp (fun hlt => hcap ⟨hpositive,hlt⟩)
      rw [←Int.toNat_of_nonneg hpositive.le] at hge
      have hnat : length≤config.maxSteps.toNat*config.gradientAccumulationSteps := by
        exact_mod_cast hge
      omega
    · next hnone =>
      rw [budget_uncapped hnone]
      have hle : (length-1)/config.gradientAccumulationSteps≤
          length/config.gradientAccumulationSteps := Nat.div_le_div_right (Nat.sub_le _ _)
      have hmax : length/config.gradientAccumulationSteps≤
          max (length/config.gradientAccumulationSteps) 1*config.epochs :=
        (le_max_left _ _).trans (Nat.le_mul_of_pos_right _ (Nat.pos_of_ne_zero hepochs))
      omega
  refine lt_min hlimit ?_
  rcases hfilled with hdvd|hle
  · rw [Nat.div_lt_iff_lt_mul hpos,Nat.div_mul_cancel hdvd]
    omega
  · exact hlimit.trans_le ((Nat.le_div_iff_mul_le hpos).mpr hle)

/-- In order, the window of the first short micro-batch has a full one too. -/
theorem mixed_window (hb : 0<batchSize) {size : ℕ} (hsize : 2 ≤ size)
    (hlong : 2≤count ⌈/⌉ batchSize) {window : List (List ℕ)}
    (hw : window=(List.range size).map (fun offset => batchAt (inOrder count) batchSize
      (((count ⌈/⌉ batchSize)-1)/size*size+offset))) :
    (∀ batch∈window,
      batch.length=count-((count ⌈/⌉ batchSize)-1)*batchSize ∧
          (∀ e∈batch, mark count batchSize e=1) ∨
        batch.length=batchSize ∧ ∀ e∈batch, mark count batchSize e=0) ∧
      (∃ batch∈window, batch.length=count-((count ⌈/⌉ batchSize)-1)*batchSize) ∧
        ∃ batch∈window, batch.length=batchSize := by
  subst hw
  have hdiv := Nat.div_add_mod' ((count ⌈/⌉ batchSize)-1) size
  have hmod : ((count ⌈/⌉ batchSize)-1)%size<size := Nat.mod_lt _ (by omega)
  refine ⟨?_,?_,?_⟩
  · intro batch hm
    obtain ⟨offset,_,rfl⟩ := List.mem_map.mp hm
    have hlt := Nat.mod_lt (((count ⌈/⌉ batchSize)-1)/size*size+offset)
      (show 0<count ⌈/⌉ batchSize by omega)
    rcases Nat.lt_or_eq_of_le (Nat.succ_le_of_lt hlt) with hearly|hlast
    · exact Or.inr (batchAt_earlier hb hearly)
    · exact Or.inl (batchAt_last hb hlast)
  · refine ⟨_,List.mem_map_of_mem (List.mem_range.mpr hmod),(batchAt_last hb ?_).1⟩
    rw [hdiv,Nat.mod_eq_of_lt (by omega)]
    omega
  · by_cases hz : ((count ⌈/⌉ batchSize)-1)%size=0
    · have hone : ((count ⌈/⌉ batchSize)-1)/size*size+1=count ⌈/⌉ batchSize := by omega
      refine ⟨_,List.mem_map_of_mem (List.mem_range.mpr hsize),(batchAt_earlier hb ?_).1⟩
      rw [hone,Nat.mod_self]
      exact hlong
    · have hone : ((count ⌈/⌉ batchSize)-1)/size*size+(((count ⌈/⌉ batchSize)-1)%size-1)=
          (count ⌈/⌉ batchSize)-2 := by omega
      refine ⟨_,List.mem_map_of_mem (List.mem_range.mpr ((Nat.sub_le _ 1).trans_lt hmod)),
        (batchAt_earlier hb ?_).1⟩
      rw [hone,Nat.mod_eq_of_lt (by omega)]
      omega

/-- Where a short micro-batch shares a window with full ones, some step is not
handed the mean. -/
theorem uniform_of_means (hn : 0<count) (hb : 0<batchSize) {v : V} (hv : v≠0)
    (hclip : ∀ c : ℚ, 0≤c → c≤1 → clip (c•v)=c•v)
    (hfilled : Filled config (count ⌈/⌉ batchSize))
    (h : HandsMeans (marked count batchSize v) clip (trainLoops config
      (dataLoader (inOrder count) batchSize) (meanTask (marked count batchSize v) clip)).state) :
    Uniform config count batchSize := by
  by_contra hu
  rw [Uniform,not_or,not_or,not_or,not_or] at hu
  obtain ⟨hepochs,hk,hlong,hdvd,hcap⟩ := hu
  have hpos := config.accumulation_pos
  have hlength : 0<count ⌈/⌉ batchSize := Nat.pos_of_ne_zero (fun hz =>
    hn.ne' ((ceilDiv_eq_zero_iff hb count).mp hz))
  have hlow := le_ceilDiv_mul hb count
  have hhigh := ceilDiv_mul_lt hb count
  have hsplit : (count ⌈/⌉ batchSize)*batchSize=
      ((count ⌈/⌉ batchSize)-1)*batchSize+batchSize := by
    rw [←Nat.succ_mul,Nat.succ_eq_add_one,Nat.sub_add_cancel hlength]
  generalize hfinal : (trainLoops config (dataLoader (inOrder count) batchSize)
    (meanTask (marked count batchSize v) clip)).state=final
  rw [hfinal] at h
  have hmeans := h.1
  have hw : Windowed config (meanTask (marked count batchSize v) clip) final :=
    hfinal ▸ (trainLoops_windowed config (dataLoader (inOrder count) batchSize)
      (meanTask (marked count batchSize v) clip)).1
  have hused := last_used hepochs hlength hcap hfilled
  rw [←length_windows (inOrder count) hfinal.symm] at hused
  obtain ⟨hbatches,hshort,hfull⟩ := mixed_window hb
    (show 2≤config.gradientAccumulationSteps by omega) (by omega)
    (getElem_windows_eq (inOrder count) hfinal.symm hused)
  rw [hw.handed,List.mapIdx_eq_mapIdx_iff] at hmeans
  refine handed_marked _ _ hv hclip ?_ ?_ (hw.full _ (List.getElem_mem _)) hbatches hshort hfull _
    (hmeans _ hused)
  · omega
  · intro he
    exact hdvd ⟨count ⌈/⌉ batchSize,by rw [Nat.mul_comm]; omega⟩

/-- Where the schedule can be constructed the loops decide. -/
theorem splitIndependent_constructed {oneCycleLR : ℤ → ℚ → Option PyError}
    (hs : config.scheduleError oneCycleLR (count ⌈/⌉ batchSize)=none) :
    SplitIndependent oneCycleLR config count batchSize clip ↔
      ∀ (sampler : Sampler count) (examples : Examples V),
        HandsMeans examples clip (trainLoops config (dataLoader sampler batchSize)
          (meanTask examples clip)).state := by
  refine forall_congr' (fun sampler => forall_congr' (fun examples => ?_))
  have hrun : train oneCycleLR config (dataLoader sampler batchSize) (meanTask examples clip)=
      trainLoops config (dataLoader sampler batchSize) (meanTask examples clip) :=
    train_constructed hs
  rw [hrun]

/-- Accumulation does not depend on the split exactly when constructing the
schedule raises, so that nothing is drawn, or the micro-batches fill their
windows and no short one shares a window with a full one. -/
theorem splitIndependent_iff (oneCycleLR : ℤ → ℚ → Option PyError) (hn : 0<count)
    (hb : 0<batchSize) (hclip : ∃ v : V, v≠0 ∧ ∀ c : ℚ, 0≤c → c≤1 → clip (c•v)=c•v) :
    SplitIndependent oneCycleLR config count batchSize clip ↔
      config.scheduleError oneCycleLR (count ⌈/⌉ batchSize)≠none ∨
        Filled config (count ⌈/⌉ batchSize) ∧ Uniform config count batchSize := by
  cases hs : config.scheduleError oneCycleLR (count ⌈/⌉ batchSize) with
  | some error =>
    refine iff_of_true ?_ (Or.inl (Option.some_ne_none error))
    intro sampler examples
    have hrun : train oneCycleLR config (dataLoader sampler batchSize) (meanTask examples clip)=
        .raised error {} := train_raised hs
    rw [hrun]
    exact ⟨rfl,rfl⟩
  | none =>
    rw [splitIndependent_constructed hs,or_iff_right (fun h => h rfl)]
    constructor
    · intro h
      obtain ⟨v,hv,hclip⟩ := hclip
      have hmarked := h (inOrder count) (marked count batchSize v)
      have hfilled := (flatten_windows_iff (inOrder count) rfl).mp hmarked.2
      exact ⟨hfilled,uniform_of_means hn hb hv hclip hfilled hmarked⟩
    · rintro ⟨hfilled,hu⟩ sampler examples
      exact ⟨handed_uniform sampler hn hb hu rfl,(flatten_windows_iff sampler rfl).mpr hfilled⟩

end Skewed

/-- Scaling down to length one, for numbers. -/
def clipNumber (g : ℚ) : ℚ := g*min 1 (1/(|g|+1/1000000))

/-- Short numbers are not clipped. -/
theorem clipNumber_half (c : ℚ) (h0 : 0≤c) (h1 : c≤1) :
    clipNumber (c•(1/2 : ℚ))=c•(1/2 : ℚ) := by
  have hhalf : (0 : ℚ)≤c•(1/2 : ℚ) := smul_nonneg h0 (by norm_num)
  have hle : c•(1/2 : ℚ)+1/1000000≤1 := by
    rw [smul_eq_mul]
    linarith
  rw [clipNumber,abs_of_nonneg hhalf,min_eq_left,mul_one]
  exact (one_le_div (by linarith)).mpr hle

theorem pairs_bounded : 0 < 1 ∨ (0 : ℤ)<0 := by decide

/-- One epoch, two micro-batches to a step. -/
def pairs : TrainingConfig := ⟨2,1,0,0,Nat.two_pos,pairs_bounded,zero_ratio⟩

/-- Four examples in micro-batches of two. -/
theorem splitIndependent_pairs :
    SplitIndependent phaseError pairs 4 2 clipNumber ↔
      pairs.scheduleError phaseError (4 ⌈/⌉ 2)≠none ∨
        Filled pairs (4 ⌈/⌉ 2) ∧ Uniform pairs 4 2 :=
  splitIndependent_iff phaseError (by decide) (by decide) ⟨1/2,by norm_num,clipNumber_half⟩

/-- Three examples in micro-batches of two, the last of which has the only
gradient: it counts for half of the step and not for a third. -/
theorem not_splitIndependent_three : ¬SplitIndependent phaseError pairs 3 2 clipNumber := by
  intro h
  obtain ⟨hmeans,_⟩ := h ⟨fun _ => [0,1,2],fun _ => .refl _⟩
    ⟨fun _ e => if e=2 then 1/2 else 0,fun _ _ => 0,fun _ => 1⟩
  revert hmeans
  decide +kernel

end CudaForge.GradientAccumulation
