import CudaForge.RowDistributions
import Mathlib.Analysis.Complex.Exponential

/-!
# Sampling a batch is sampling its rows

`_sample` looks at as many entries as the largest `top_k` asks for, filters
every row by mass as soon as one asks for it and takes a second softmax. Row
by row it draws from what `_distribution` makes of that row, the greedy rows
apart, which get their largest logit.
-/

namespace CudaForge.SamplingAgreement

open PythonBuiltins GenerationSettings BatchTensors TokenSampling RowDistributions

variable {K : Type} [Field K] [LinearOrder K]

/-- Rows of logits over one vocabulary, each with its settings. -/
structure Batch where
  /-- A row of logits and its settings. -/
  items : List (List ℚ×GenerationConfig)
  /-- How many tokens there are. -/
  vocabulary : ℕ
  vocabulary_pos : 0<vocabulary
  uniform : ∀ item∈items, item.1.length=vocabulary
  topK_le : ∀ item∈items, item.2.topK≤vocabulary
  temperature : ∀ item∈items, item.2.temperature=0 ∨ 1/1000000 ≤ item.2.temperature

namespace Batch

/-- The rows. -/
def logits (batch : Batch) : List (List ℚ) := batch.items.map Prod.fst

/-- The settings. -/
def settings (batch : Batch) : List GenerationConfig := batch.items.map Prod.snd

end Batch

/-- The token of one row, drawn from its own distribution. -/
def token (exp : ℚ → K) (draw : Draw K) (index : ℕ) (item : List ℚ×GenerationConfig) : ℕ :=
  if item.2.temperature=0 then bestToken item.1
  else draw index (distribution exp item.1 item.2)

/-- A row divided by its temperature, by one where that is zero. -/
def scaledRow (item : List ℚ×GenerationConfig) : List (WithBot ℚ) :=
  item.1.map (fun logit => ((logit/(if max item.2.temperature 0=0 then 1
    else max item.2.temperature 0) : ℚ) : WithBot ℚ))

/-- The weights a row is drawn from. -/
def rowWeights (exp : ℚ → K) (item : List ℚ×GenerationConfig) : List K :=
  if item.2.topP<1 then
    nucleus (item.2.topP : K) (softmaxOf exp (maskTopK item.2.topK (scaledRow item)))
  else softmaxOf exp (maskTopK item.2.topK (scaledRow item))

variable {exp : ℚ → K} {draw : Draw K} {batch : Batch} {item : List ℚ×GenerationConfig}

/-- Where the temperature is not zero, both scale alike. -/
theorem distribution_eq (ht : item.2.temperature≠0)
    (hb : item.2.temperature=0 ∨ 1/1000000 ≤ item.2.temperature) :
    distribution exp item.1 item.2=rowWeights exp item := by
  have hmax : max item.2.temperature 0=item.2.temperature :=
    max_eq_left (not_lt.mp item.2.temperature_nonneg)
  have hsmall : max item.2.temperature (1/1000000)=item.2.temperature :=
    max_eq_left (hb.resolve_left ht)
  simp only [rowWeights,scaledRow,distribution,hmax,if_neg ht,hsmall]

/-- No entry of a scaled row is masked. -/
theorem scaledRow_ne_bot : ∀ entry∈scaledRow item, entry≠⊥ := by
  intro entry he
  obtain ⟨logit,_,rfl⟩ := List.mem_map.mp he
  exact WithBot.coe_ne_bot

namespace Batch

/-- No row is empty. -/
theorem row_ne_nil (h : item∈batch.items) : item.1≠[] := by
  have hl := batch.uniform item h
  have hpos := batch.vocabulary_pos
  rw [←List.length_pos_iff]
  omega

/-- The rows, scaled. -/
theorem scaledRows_eq : scaledRows batch.logits
    ((batch.settings.map (fun setting => max setting.temperature 0)).map
      (fun t => if t=0 then 1 else t))=batch.items.map scaledRow := by
  rw [scaledRows,Batch.logits,Batch.settings,List.map_map,List.map_map,List.zip_map',
    List.map_map]
  rfl

/-- The rows behind the filter by rank. -/
theorem filterTopK_eq : filterTopK (batch.settings.map GenerationConfig.topK)
    (batch.items.map scaledRow)=
      .ok (batch.items.map (fun item => maskTopK item.2.topK (scaledRow item))) := by
  rw [filterTopK_rows ?_ ?_]
  · rw [Batch.settings,List.map_map,List.zip_map',List.map_map]
    rfl
  · rw [Batch.settings,List.length_map,List.length_map,List.length_map]
  · intro k hk row hrow
    obtain ⟨setting,hs,rfl⟩ := List.mem_map.mp hk
    obtain ⟨item,hi,rfl⟩ := List.mem_map.mp hs
    obtain ⟨other,ho,rfl⟩ := List.mem_map.mp hrow
    rw [scaledRow,List.length_map,batch.uniform other ho]
    exact batch.topK_le item hi

variable [IsStrictOrderedRing K]

/-- The weights of all rows behind the filter by mass. -/
theorem weights_eq (hm : StrictMono exp) (hp : ∀ logit, 0<exp logit) :
    (filterTopP (softmaxOf exp) (batch.settings.map (fun setting => (setting.topP : K)))
      (batch.items.map (fun item => maskTopK item.2.topK (scaledRow item)))).map
        (softmaxOf exp)=batch.items.map (rowWeights exp) := by
  rw [filterTopP_rows hm hp ?_ ?_ ?_]
  · rw [Batch.settings,List.map_map,List.zip_map',List.map_map]
    refine List.map_congr_left ?_
    intro item _
    have hlt : (item.2.topP : K)<1 ↔ item.2.topP<1 := by exact_mod_cast Iff.rfl
    simp only [Function.comp,rowWeights,hlt]
  · rw [Batch.settings,List.length_map,List.length_map,List.length_map]
  · intro topP h
    obtain ⟨setting,_,rfl⟩ := List.mem_map.mp h
    exact_mod_cast setting.topP_le
  · intro row hrow
    obtain ⟨item,hi,rfl⟩ := List.mem_map.mp hrow
    have hne : scaledRow item≠[] := fun h => row_ne_nil hi (List.map_eq_nil_iff.mp h)
    exact maskTopK_keeps hne scaledRow_ne_bot

end Batch

variable [IsStrictOrderedRing K]

/-- Every row is drawn from its own distribution, the greedy ones get their
largest logit. -/
theorem sample_eq (hm : StrictMono exp) (hp : ∀ logit, 0<exp logit) :
    sample (softmaxOf exp) draw batch.logits batch.settings=
      .ok (batch.items.mapIdx (token exp draw)) := by
  have hargmax : batch.logits.mapM argmax=.ok (batch.logits.map bestToken) := by
    refine mapM_ok ?_
    intro row hrow
    obtain ⟨item,hi,rfl⟩ := List.mem_map.mp hrow
    exact argmax_eq (Batch.row_ne_nil hi)
  rw [sample]
  simp only [Batch.scaledRows_eq,Batch.filterTopK_eq,ok_bind,hargmax,Batch.weights_eq hm hp]
  refine congrArg Except.ok (List.ext_getElem ?_ ?_)
  · simp only [Batch.settings,Batch.logits,List.length_map,List.length_zip,List.length_mapIdx,
      Nat.min_self]
  · intro index _ hi
    rw [List.length_mapIdx] at hi
    have hmem : batch.items[index]∈batch.items := List.getElem_mem hi
    have hmax : max batch.items[index].2.temperature 0=batch.items[index].2.temperature :=
      max_eq_left (not_lt.mp batch.items[index].2.temperature_nonneg)
    simp only [Batch.settings,Batch.logits,List.getElem_map,List.getElem_zip,
      List.getElem_mapIdx,hmax,token]
    by_cases ht : batch.items[index].2.temperature=0
    · rw [if_pos (decide_eq_true ht),if_pos ht]
    · rw [if_neg (fun h => ht (of_decide_eq_true h)),if_neg ht,
        distribution_eq ht (batch.temperature _ hmem)]

/-- Sampling a batch is sampling its rows: the token of a row of temperature
zero is its largest logit whatever is drawn, any other is drawn from what
`_distribution` makes of the row, and another batch with the same row and
settings at an index gets the same token there. -/
theorem sampling_agrees (hm : StrictMono exp) (hp : ∀ logit, 0<exp logit) :
    sample (softmaxOf exp) draw batch.logits batch.settings=
        .ok (batch.items.mapIdx (fun index item =>
          if item.2.temperature=0 then bestToken item.1
          else draw index (distribution exp item.1 item.2))) ∧
      ∀ (other : Batch) (index : ℕ), other.items[index]?=batch.items[index]? →
        ∃ tokens others, sample (softmaxOf exp) draw batch.logits batch.settings=.ok tokens ∧
          sample (softmaxOf exp) draw other.logits other.settings=.ok others ∧
          others[index]?=tokens[index]? := by
  refine ⟨sample_eq hm hp,?_⟩
  intro other index h
  refine ⟨_,_,sample_eq hm hp,sample_eq hm hp,?_⟩
  rw [List.getElem?_mapIdx,List.getElem?_mapIdx,h]

theorem filtering_temperature : ¬(1/2 : ℚ)<0 := by norm_num

theorem filtering_mass : (0 : ℚ)<9/10 := by norm_num

theorem filtering_mass_le : (9/10 : ℚ)≤1 := by norm_num

/-- Settings with a filter of each kind. -/
def filtering : GenerationConfig where
  temperature := 1/2
  topK := 2
  topP := 9/10
  maxNewTokens_pos := default_tokens
  temperature_nonneg := filtering_temperature
  topP_pos := filtering_mass
  topP_le := filtering_mass_le

/-- Settings that take the most likely token. -/
def cold : GenerationConfig :=
  ⟨1,0,1,0,none,Nat.one_pos,greedy_temperature,default_mass,default_mass_le⟩

/-- A greedy row and one with both filters. -/
def mixedItems : List (List ℚ×GenerationConfig) := [([1,3,3],cold),([2,0,1],filtering)]

theorem mixed_uniform : ∀ item∈mixedItems, item.1.length=3 := by decide

theorem mixed_topK : ∀ item∈mixedItems, item.2.topK≤3 := by decide

theorem mixed_vocabulary : 0 < 3 := by decide

theorem mixed_temperature :
    ∀ item∈mixedItems, item.2.temperature=0 ∨ 1/1000000 ≤ item.2.temperature := by
  intro item h
  rcases List.mem_cons.mp h with rfl | h
  · exact Or.inl rfl
  · rcases List.mem_singleton.mp h with rfl
    exact Or.inr (by norm_num [filtering])

/-- A greedy row beside one with both filters. -/
def mixed : Batch where
  items := mixedItems
  vocabulary := 3
  vocabulary_pos := mixed_vocabulary
  uniform := mixed_uniform
  topK_le := mixed_topK
  temperature := mixed_temperature

/-- With the exponential of the real numbers. -/
theorem sampling_agrees_mixed :
    sample (softmaxOf (fun logit : ℚ => Real.exp logit))
        (fun index weights => index+weights.length) mixed.logits mixed.settings=
      .ok [1,1+(distribution (fun logit : ℚ => Real.exp logit) [2,0,1] filtering).length] := by
  have hexp : StrictMono (fun logit : ℚ => Real.exp logit) :=
    Real.exp_strictMono.comp Rat.cast_strictMono
  have hbest : bestToken [1,3,3]=1 := by decide
  have hwarm : filtering.temperature≠0 := by norm_num [filtering]
  refine (sampling_agrees hexp (fun logit => Real.exp_pos logit)).1.trans ?_
  simp only [mixed,mixedItems,cold,List.mapIdx_cons,List.mapIdx_nil,if_true,hbest,if_neg hwarm,
    Nat.zero_add]

end CudaForge.SamplingAgreement
