import CudaForge.BatchTensors
import CudaForge.GenerationSettings

/-!
# Generating a static batch

`TransformersRunner.generate`: one call of the model for all rows, with the
largest budget and the first request's sampling settings, after which each row
is cut at its own budget. The tokenizer and the model are parameters. What is
documented of them is that prompts are padded on the left, and that without
sampling a row's continuation depends on its own tokens only, with padding up
to the longest continuation behind it.
-/

namespace CudaForge.BatchGeneration

open BatchTensors GenerationSettings

/-- Output for one prompt. -/
structure GenerationResult where
  /-- The decoded continuation. -/
  text : String
  /-- Tokens of the prompt, without padding. -/
  promptTokens : ℕ
  /-- Tokens of the continuation, as it was cut. -/
  generatedTokens : ℕ
  deriving DecidableEq

/-- What the tokenizer makes of a list of prompts. -/
structure Encoded (Token : Type) where
  /-- Token ids, a row for each prompt. -/
  inputIds : Tensor Token
  /-- One where a token belongs to the prompt, zero where it is padding. -/
  attentionMask : Tensor ℕ

/-- The tokenizer, as the runner uses it. -/
structure Tokenizer (Token : Type) where
  /-- The prompts with `padding` and `truncation`. -/
  encode : List String → Encoded Token
  /-- Ids to text, with `skip_special_tokens`. -/
  decode : List Token → String
  /-- Pads rows. -/
  padTokenId : Token

/-- The sampling arguments of a call of the model. -/
@[ext]
structure Sampling where
  /-- Draw, rather than take the most likely token. -/
  doSample : Bool
  /-- Absent without sampling. -/
  temperature : Option ℚ
  /-- Probability mass the nucleus filter keeps. -/
  topP : ℚ
  /-- Most candidates kept, if limited. -/
  topK : Option ℕ
  deriving DecidableEq

/-- The arguments `model.generate` is called with. -/
structure Call (Token : Type) where
  /-- The encoded prompts. -/
  encoded : Encoded Token
  /-- The budget of the whole batch. -/
  maxNewTokens : ℕ
  /-- Settings that hold for every row. -/
  sampling : Sampling
  /-- What finished rows are filled with. -/
  padTokenId : Token

variable {Token Draws : Type}

/-- The sampling arguments that one request's settings ask for. -/
def samplingOf (generation : GenerationConfig) : Sampling where
  doSample := !generation.greedy
  temperature := if generation.greedy then none else some generation.temperature
  topP := generation.topP
  topK := if generation.topK=0 then none else some generation.topK

/-- The budget of the most demanding request. -/
def longestBudget (settings : List GenerationConfig) : ℕ :=
  (settings.map (·.maxNewTokens)).foldr max 0

/-- The call of the model for a batch: sampling is the first request's. No
settings raise. -/
def callOf (tokenizer : Tokenizer Token) (prompts : List String)
    (settings : List GenerationConfig) : Option (Call Token) :=
  settings.head?.map fun first =>
    { encoded := tokenizer.encode prompts
      maxNewTokens := longestBudget settings
      sampling := samplingOf first
      padTokenId := tokenizer.padTokenId }

/-- The new tokens of a row, at most as many as its own budget. -/
def generatedOf (call : Call Token) (generatedIds : Tensor Token) (row budget : ℕ) :
    List Token :=
  ((generatedIds.row row).drop call.encoded.inputIds.width).take budget

/-- The result of one row. -/
def resultOf (tokenizer : Tokenizer Token) (call : Call Token) (generatedIds : Tensor Token)
    (setting : GenerationConfig) (row : ℕ) : GenerationResult where
  text := tokenizer.decode (generatedOf call generatedIds row setting.maxNewTokens)
  promptTokens := (call.encoded.attentionMask.row row).sum
  generatedTokens := (generatedOf call generatedIds row setting.maxNewTokens).length

/-- `generate`. As many rows as settings, or the strict zip raises. -/
def generate (tokenizer : Tokenizer Token) (model : Call Token → Tensor Token)
    (prompts : List String) (settings : List GenerationConfig) :
    Option (List GenerationResult) := do
  let call ← callOf tokenizer prompts settings
  let generatedIds := model call
  if generatedIds.batch=settings.length then
    some (settings.mapIdx fun row setting => resultOf tokenizer call generatedIds setting row)
  else none

/-! ## What is documented of the tokenizer and the model -/

/-- The tokenizer pads on the left: a row is padding, hidden by the mask, and
then the ids of its prompt. -/
structure LeftPads (tokenizer : Tokenizer Token) (idsOf : String → List Token) : Prop where
  /-- A row for each prompt. -/
  batch : ∀ prompts, (tokenizer.encode prompts).inputIds.batch=prompts.length
  /-- The ids of a row. -/
  row : ∀ prompts index prompt, prompts[index]?=some prompt →
    ∃ pads : List Token, (tokenizer.encode prompts).inputIds.row index=pads++idsOf prompt ∧
      (tokenizer.encode prompts).attentionMask.row index=leftMask pads.length
        (idsOf prompt).length

namespace Call

/-- The tokens of a row that the mask shows. -/
def shown (call : Call Token) (index : ℕ) : List Token :=
  visible (call.encoded.attentionMask.row index) (call.encoded.inputIds.row index)

/-- A row's own new tokens within the budget of the batch. -/
def continued (continuation : Sampling → List Token → ℕ → List Token) (call : Call Token)
    (index : ℕ) : List Token :=
  continuation call.sampling (call.shown index) call.maxNewTokens

/-- How long the batch runs: as long as one of its rows goes on. -/
def steps (continuation : Sampling → List Token → ℕ → List Token) (call : Call Token) : ℕ :=
  ((List.range call.encoded.inputIds.batch).map fun index =>
    (call.continued continuation index).length).foldr max 0

/-- A row's new tokens, padded to where the batch stops. -/
def filled (continuation : Sampling → List Token → ℕ → List Token) (call : Call Token)
    (index : ℕ) : List Token :=
  call.continued continuation index++
    List.replicate (call.steps continuation-(call.continued continuation index).length)
      call.padTokenId

end Call

/-- Without sampling the model treats rows independently: what a row's own
tokens continue to, and padding until the batch stops. A smaller budget stops
the same continuation earlier. -/
structure RowsIndependent (model : Draws → Call Token → Tensor Token)
    (continuation : Sampling → List Token → ℕ → List Token) : Prop where
  /-- A row out for each row in. -/
  batch : ∀ draws call, (model draws call).batch=call.encoded.inputIds.batch
  /-- A row out. -/
  row : ∀ draws (call : Call Token), call.sampling.doSample=false →
    ∀ index<call.encoded.inputIds.batch,
      (model draws call).row index=
        call.encoded.inputIds.row index++call.filled continuation index
  /-- The budget only cuts. -/
  cut : ∀ (sampling : Sampling) ids budget budget', sampling.doSample=false →
    budget≤budget' → continuation sampling ids budget=
      (continuation sampling ids budget').take budget

/-! ## One row of a batch -/

/-- A batch: each prompt with its settings. -/
abbrev Batch := List (String × GenerationConfig)

/-- The call that a batch makes. -/
def Batch.call (batch : Batch) (tokenizer : Tokenizer Token) : Option (Call Token) :=
  callOf tokenizer (batch.map (·.1)) (batch.map (·.2))

/-- The result of a row when the batch is run. -/
def Batch.result (batch : Batch) (tokenizer : Tokenizer Token)
    (model : Call Token → Tensor Token) (index : ℕ) : Option GenerationResult :=
  (generate tokenizer model (batch.map (·.1)) (batch.map (·.2))).bind (·[index]?)

/-- Two runs do not let the rest of the batch into a row: it is generated with
the sampling its own settings ask for, and when these are greedy its result is
the same. -/
structure Unswayed (tokenizer : Tokenizer Token) (model model' : Call Token → Tensor Token)
    (batch batch' : Batch) (index : ℕ) (setting : GenerationConfig) : Prop where
  /-- The sampling of the first run. -/
  sampled : (batch.call tokenizer).map (·.sampling)=some (samplingOf setting)
  /-- The sampling of the second run. -/
  sampled' : (batch'.call tokenizer).map (·.sampling)=some (samplingOf setting)
  /-- One result. -/
  same : setting.greedy → ∃ result, batch.result tokenizer model index=some result ∧
    batch'.result tokenizer model' index=some result

/-- The first request of a batch asks for the sampling of these settings. -/
def LedAlike (batch : Batch) (setting : GenerationConfig) : Prop :=
  ∃ first∈batch.head?, first.2.temperature=setting.temperature ∧
    first.2.topP=setting.topP ∧ first.2.topK=setting.topK

/-- Some other row is still being generated at a position. -/
def GoesOn (continuation : Sampling → List Token → ℕ → List Token) (idsOf : String → List Token)
    (batch : Batch) (index : ℕ) (setting : GenerationConfig) (position : ℕ) : Prop :=
  ∃ other row, other≠index ∧ batch[other]?=some row ∧ position <
    (continuation (samplingOf setting) (idsOf row.1) (longestBudget (batch.map (·.2)))).length

/-- Two settings ask for the same sampling exactly when temperature and both
filters agree. -/
theorem samplingOf_eq_iff (generation generation' : GenerationConfig) :
    samplingOf generation=samplingOf generation' ↔ generation.temperature=generation'.temperature ∧
      generation.topP=generation'.topP ∧ generation.topK=generation'.topK := by
  constructor
  · intro h
    obtain ⟨hs,ht,hp,hk⟩ := Sampling.ext_iff.mp h
    refine ⟨?_,hp,?_⟩
    · have hg : generation.greedy=generation'.greedy := Bool.not_inj hs
      simp only [samplingOf,hg] at ht
      by_cases hz : generation'.greedy
      · have hz' : generation.greedy := hg.trans hz
        rw [GenerationConfig.greedy,decide_eq_true_eq] at hz hz'
        rw [hz,hz']
      · simpa only [hz,if_false,Option.some.injEq,Bool.false_eq_true] using ht
    · simp only [samplingOf] at hk
      by_cases hz : generation.topK=0 <;> by_cases hz' : generation'.topK=0 <;>
        simp_all only [if_true,if_false,reduceCtorEq,Option.some.injEq]
  · rintro ⟨ht,hp,hk⟩
    have hg : generation.greedy=generation'.greedy := by
      rw [GenerationConfig.greedy,GenerationConfig.greedy,ht]
    simp only [samplingOf,hg,ht,hp,hk]

/-- The budget of the batch is at least each row's. -/
theorem le_longestBudget {settings : List GenerationConfig} {setting : GenerationConfig}
    (h : setting∈settings) : setting.maxNewTokens≤longestBudget settings := by
  exact List.le_max_of_le' 0 (List.mem_map_of_mem h) le_rfl

/-- The batch runs past a position exactly when one of its rows does. -/
theorem lt_steps_iff (continuation : Sampling → List Token → ℕ → List Token)
    (call : Call Token) (position : ℕ) : position<call.steps continuation ↔
      ∃ index<call.encoded.inputIds.batch,
        position<(call.continued continuation index).length := by
  have h (lengths : List ℕ) : position<lengths.foldr max 0 ↔ ∃ n∈lengths, position<n := by
    induction lengths with
    | nil => simp only [List.foldr_nil,Nat.not_lt_zero,List.not_mem_nil,false_and,exists_false]
    | cons n lengths ih => simp only [List.foldr_cons,lt_max_iff,ih,List.mem_cons,
        exists_eq_or_imp]
  rw [Call.steps,h]
  constructor
  · rintro ⟨n,hn,hp⟩
    obtain ⟨index,hi,rfl⟩ := List.mem_map.mp hn
    exact ⟨index,List.mem_range.mp hi,hp⟩
  · rintro ⟨index,hi,hp⟩
    exact ⟨_,List.mem_map_of_mem (List.mem_range.mpr hi),hp⟩

/-- No row goes on longer than the batch. -/
theorem continued_le_steps (continuation : Sampling → List Token → ℕ → List Token)
    {call : Call Token} {index : ℕ} (h : index<call.encoded.inputIds.batch) :
    (call.continued continuation index).length≤call.steps continuation := by
  by_contra hn
  have hlt := (lt_steps_iff continuation call _).mpr ⟨index,h,Nat.not_le.mp hn⟩
  exact absurd hlt (Nat.lt_irrefl _)

section Rows

variable {tokenizer : Tokenizer Token} {idsOf : String → List Token}
  {model : Draws → Call Token → Tensor Token}
  {continuation : Sampling → List Token → ℕ → List Token} {draws : Draws}
  {batch : Batch} {index : ℕ} {prompt : String} {setting : GenerationConfig} {call : Call Token}

/-- A row's own new tokens within its own budget. -/
def ownTokens (continuation : Sampling → List Token → ℕ → List Token)
    (idsOf : String → List Token) (prompt : String) (setting : GenerationConfig) : List Token :=
  continuation (samplingOf setting) (idsOf prompt) setting.maxNewTokens

/-- A batch with a row in it makes a call. -/
theorem call_some (tokenizer : Tokenizer Token) (hr : batch[index]?=some (prompt,setting)) :
    ∃ first∈batch.head?, batch.call tokenizer=some
      { encoded := tokenizer.encode (batch.map (·.1))
        maxNewTokens := longestBudget (batch.map (·.2))
        sampling := samplingOf first.2
        padTokenId := tokenizer.padTokenId } := by
  cases batch with
  | nil => exact absurd hr (by simp only [List.getElem?_nil,reduceCtorEq,not_false_iff])
  | cons first rest => exact ⟨first,rfl,rfl⟩

/-- The first request asks for the sampling of these settings exactly when the
call is made with it. -/
theorem ledAlike_iff (tokenizer : Tokenizer Token) (hr : batch[index]?=some (prompt,setting)) :
    LedAlike batch setting ↔ (batch.call tokenizer).map (·.sampling)=some (samplingOf setting) := by
  obtain ⟨first,hf,hc⟩ := call_some tokenizer hr
  rw [hc,Option.map_some,Option.some.injEq,samplingOf_eq_iff,LedAlike,hf]
  simp only [Option.mem_def,Option.some.injEq,exists_eq_left']

variable (hT : LeftPads tokenizer idsOf) (hM : RowsIndependent model continuation)
  (hr : batch[index]?=some (prompt,setting)) (hc : batch.call tokenizer=some call)

include hr hc

/-- What a batch's call passes on. -/
theorem call_fields : call.encoded=tokenizer.encode (batch.map (·.1)) ∧
    call.maxNewTokens=longestBudget (batch.map (·.2)) ∧
    call.padTokenId=tokenizer.padTokenId := by
  obtain ⟨first,-,hf⟩ := call_some tokenizer hr
  cases hf.symm.trans hc
  exact ⟨rfl,rfl,rfl⟩

include hT

/-- As many rows as prompts. -/
theorem call_batch : call.encoded.inputIds.batch=batch.length := by
  rw [(call_fields hr hc).1,hT.batch,List.length_map]

theorem index_lt : index<call.encoded.inputIds.batch := by
  rw [call_batch hT hr hc]
  exact (List.getElem?_eq_some_iff.mp hr).1

/-- The mask shows a prompt's own ids. -/
theorem shown_eq : call.shown index=idsOf prompt := by
  obtain ⟨pads,hi,hm⟩ := hT.row (batch.map (·.1)) index prompt
    (by rw [List.getElem?_map,hr,Option.map_some])
  rw [Call.shown,(call_fields hr hc).1,hi,hm,visible_leftMask]

/-- The mask counts a prompt's own ids. -/
theorem promptTokens_eq : (call.encoded.attentionMask.row index).sum=(idsOf prompt).length := by
  obtain ⟨pads,-,hm⟩ := hT.row (batch.map (·.1)) index prompt
    (by rw [List.getElem?_map,hr,Option.map_some])
  rw [(call_fields hr hc).1,hm,sum_leftMask]

include hM

/-- A row's result when the batch is run: the strict zip does not raise. -/
theorem result_eq : batch.result tokenizer (model draws) index=
    some (resultOf tokenizer call (model draws call) setting index) := by
  have hn : (model draws call).batch=(batch.map (·.2)).length := by
    rw [hM.batch,call_batch hT hr hc,List.length_map]
  have hg : generate tokenizer (model draws) (batch.map (·.1)) (batch.map (·.2))=
      some ((batch.map (·.2)).mapIdx fun row setting =>
        resultOf tokenizer call (model draws call) setting row) := by
    simp only [generate,show callOf tokenizer (batch.map (·.1)) (batch.map (·.2))=some call from hc,
      Option.bind_eq_bind,Option.bind_some,if_pos hn]
  rw [Batch.result,hg,Option.bind_some,List.getElem?_mapIdx,List.getElem?_map,hr]
  rfl

variable (hs : call.sampling=samplingOf setting) (hg : setting.greedy)

include hs hg

/-- The batch's budget cuts a row no earlier than its own. -/
theorem ownTokens_eq : ownTokens continuation idsOf prompt setting=
    (call.continued continuation index).take setting.maxNewTokens := by
  have hb : setting.maxNewTokens≤call.maxNewTokens := by
    rw [(call_fields hr hc).2.1]
    exact le_longestBudget (List.mem_map_of_mem (List.mem_of_getElem? hr))
  have hd : (samplingOf setting).doSample=false := by simp only [samplingOf,hg,Bool.not_true]
  rw [ownTokens,hM.cut _ _ _ _ hd hb,Call.continued,shown_eq hT hr hc,hs]

/-- What a row is cut to: its own new tokens, and padding up to its budget or
to where the batch stops. -/
theorem generatedOf_eq : generatedOf call (model draws call) index setting.maxNewTokens=
    ownTokens continuation idsOf prompt setting++
      List.replicate (min setting.maxNewTokens (call.steps continuation)-
        (ownTokens continuation idsOf prompt setting).length) call.padTokenId := by
  have hd : call.sampling.doSample=false := by rw [hs,samplingOf,hg,Bool.not_true]
  have hi := index_lt hT hr hc
  have hw : (call.encoded.inputIds.row index).length=call.encoded.inputIds.width :=
    Tensor.row_length hi
  have hl := continued_le_steps continuation hi
  rw [generatedOf,hM.row draws call hd index hi,List.drop_append_of_le_length hw.ge,
    ←hw,List.drop_length,List.nil_append,Call.filled,List.take_append,List.take_replicate,
    ownTokens_eq hT hM hr hc hs hg,List.length_take]
  congr 2
  omega

theorem length_ownTokens_le : (ownTokens continuation idsOf prompt setting).length≤
    min setting.maxNewTokens (call.steps continuation) := by
  have hl := continued_le_steps continuation (index_lt hT hr hc)
  rw [ownTokens_eq hT hM hr hc hs hg,List.length_take]
  omega

/-- How many tokens a row is said to have generated: as many as its budget or
the batch's run allow. -/
theorem length_generatedOf :
    (generatedOf call (model draws call) index setting.maxNewTokens).length=
      min setting.maxNewTokens (call.steps continuation) := by
  have hl := length_ownTokens_le hT hM hr hc hs hg
  rw [generatedOf_eq hT hM hr hc hs hg,List.length_append,List.length_replicate]
  omega

/-- Past a row's own end and within its budget, the batch runs on exactly when
some other row does. -/
theorem lt_steps_iff_goesOn {position : ℕ}
    (ho : (ownTokens continuation idsOf prompt setting).length≤position)
    (hp : position<setting.maxNewTokens) : position<call.steps continuation ↔
      GoesOn continuation idsOf batch index setting position := by
  rw [ownTokens_eq hT hM hr hc hs hg,List.length_take] at ho
  have hrow (other : ℕ) (row : String × GenerationConfig) (h : batch[other]?=some row) :
      call.continued continuation other=continuation (samplingOf setting) (idsOf row.1)
        (longestBudget (batch.map (·.2))) := by
    have hshown : call.shown other=idsOf row.1 := shown_eq hT h hc
    rw [Call.continued,hshown,hs,(call_fields hr hc).2.1]
  rw [lt_steps_iff,call_batch hT hr hc]
  constructor
  · rintro ⟨other,hl,hlt⟩
    refine ⟨other,batch[other],?_,List.getElem?_eq_getElem hl,?_⟩
    · rintro rfl
      omega
    · rwa [←hrow other _ (List.getElem?_eq_getElem hl)]
  · rintro ⟨other,row,-,hb,hlt⟩
    refine ⟨other,(List.getElem?_eq_some_iff.mp hb).1,?_⟩
    rwa [hrow other row hb]

end Rows

/-- Two lengths are cut alike exactly when they are alike where the cut lets
them differ. -/
theorem min_eq_iff_lt {own budget n m : ℕ} (hn : own ≤ min budget n) (hm : own ≤ min budget m) :
    min budget n=min budget m ↔
      ∀ position, own≤position → position<budget → (position<n ↔ position < m) := by
  constructor
  · intro h position _ hb
    omega
  · intro h
    rcases Nat.lt_trichotomy (min budget n) (min budget m) with hlt | heq | hlt
    · have := h (min budget n) hn (by omega)
      omega
    · exact heq
    · have := h (min budget m) hm (by omega)
      omega

/-- A greedy row gets one result in two runs exactly when, past its own end
and within its budget, the other rows of one batch go on as those of the other
do: the padding behind a row that has ended is counted. -/
theorem result_same_iff {tokenizer : Tokenizer Token} {idsOf : String → List Token}
    {model : Draws → Call Token → Tensor Token}
    {continuation : Sampling → List Token → ℕ → List Token} (draws draws' : Draws)
    {batch batch' : Batch} {index : ℕ} {prompt : String} {setting : GenerationConfig}
    {call call' : Call Token} (hT : LeftPads tokenizer idsOf)
    (hM : RowsIndependent model continuation) (hr : batch[index]?=some (prompt,setting))
    (hr' : batch'[index]?=some (prompt,setting)) (hc : batch.call tokenizer=some call)
    (hc' : batch'.call tokenizer=some call') (hs : call.sampling=samplingOf setting)
    (hs' : call'.sampling=samplingOf setting) (hg : setting.greedy) :
    (∃ result, batch.result tokenizer (model draws) index=some result ∧
      batch'.result tokenizer (model draws') index=some result) ↔
    ∀ position, (ownTokens continuation idsOf prompt setting).length≤position →
      position<setting.maxNewTokens →
      (GoesOn continuation idsOf batch index setting position ↔
        GoesOn continuation idsOf batch' index setting position) := by
  have hn := length_ownTokens_le hT hM hr hc hs hg
  have hn' := length_ownTokens_le hT hM hr' hc' hs' hg
  have hgoes : (∀ position, (ownTokens continuation idsOf prompt setting).length≤position →
      position<setting.maxNewTokens → (GoesOn continuation idsOf batch index setting position ↔
        GoesOn continuation idsOf batch' index setting position)) ↔
      min setting.maxNewTokens (call.steps continuation)=
        min setting.maxNewTokens (call'.steps continuation) := by
    rw [min_eq_iff_lt hn hn']
    refine forall_congr' fun position => forall_congr' fun ho => forall_congr' fun hp => ?_
    rw [lt_steps_iff_goesOn hT hM hr hc hs hg ho hp,
      lt_steps_iff_goesOn hT hM hr' hc' hs' hg ho hp]
  rw [hgoes,result_eq hT hM hr hc,result_eq hT hM hr' hc']
  constructor
  · rintro ⟨result,h,h'⟩
    have hsame := congrArg GenerationResult.generatedTokens
      (Option.some.inj (h.trans h'.symm))
    rwa [resultOf,resultOf,length_generatedOf hT hM hr hc hs hg,
      length_generatedOf hT hM hr' hc' hs' hg] at hsame
  · intro h
    refine ⟨_,rfl,?_⟩
    rw [resultOf,resultOf,generatedOf_eq hT hM hr hc hs hg,generatedOf_eq hT hM hr' hc' hs' hg,
      promptTokens_eq hT hr hc,promptTokens_eq hT hr' hc',h,(call_fields hr hc).2.2,
      (call_fields hr' hc').2.2]

/-! ## The stub tokenizer and model -/

/-- Lengths of the words of a text. -/
def wordLengths (current : ℕ) : List Char → List ℕ
  | [] => if current=0 then [] else [current]
  | c::rest =>
    if c.isWhitespace then
      if current=0 then wordLengths 0 rest else current::wordLengths 0 rest
    else wordLengths (current+1) rest

/-- The stub's token ids of a prompt. -/
def stubIds (prompt : String) : List ℕ := (wordLengths 0 prompt.toList).map (·%60+1)

/-- Rows padded on the left to the longest of them. -/
def leftPadded (pad : ℕ) (rows : List (List ℕ)) : Tensor ℕ where
  rows := rows.map fun row =>
    List.replicate ((rows.map List.length).foldr max 0-row.length) pad++row
  width := (rows.map List.length).foldr max 0
  uniform := by
    intro row h
    obtain ⟨row,hr,rfl⟩ := List.mem_map.mp h
    have hl : row.length≤(rows.map List.length).foldr max 0 :=
      List.le_max_of_le' 0 (List.mem_map_of_mem hr) le_rfl
    rw [List.length_append,List.length_replicate]
    omega

/-- `StubTokenizer`. -/
def stubTokenizer : Tokenizer ℕ where
  encode prompts :=
    { inputIds := leftPadded 0 (prompts.map stubIds)
      attentionMask := leftPadded 0 (prompts.map fun prompt =>
        List.replicate (stubIds prompt).length 1) }
  decode ids := String.intercalate " " (ids.map toString)
  padTokenId := 0

/-- The model that generates rows by their continuations. -/
def rowModel (continuation : Sampling → List ℕ → ℕ → List ℕ) (_ : Unit) (call : Call ℕ) :
    Tensor ℕ where
  rows := (List.range call.encoded.inputIds.batch).map fun index =>
    call.encoded.inputIds.row index++call.filled continuation index
  width := call.encoded.inputIds.width+call.steps continuation
  uniform := by
    intro row h
    obtain ⟨index,hi,rfl⟩ := List.mem_map.mp h
    have hl := continued_le_steps continuation (List.mem_range.mp hi)
    rw [List.length_append,Tensor.row_length (List.mem_range.mp hi),Call.filled,
      List.length_append,List.length_replicate]
    omega

/-- As in `StubModel`, a prompt continues with one, two, three and so on. It
ends after as many tokens as its ids sum to. -/
def countUp (_ : Sampling) (ids : List ℕ) (budget : ℕ) : List ℕ :=
  List.range' 1 (min budget ids.sum)

theorem row_leftPadded (pad : ℕ) {rows : List (List ℕ)} {index : ℕ} {row : List ℕ}
    (h : rows[index]?=some row) : (leftPadded pad rows).row index=
      List.replicate ((rows.map List.length).foldr max 0-row.length) pad++row := by
  rw [Tensor.row,leftPadded,List.getElem?_map,h]
  rfl

theorem stubTokenizer_leftPads : LeftPads stubTokenizer stubIds where
  batch prompts := by
    have hb : (stubTokenizer.encode prompts).inputIds.batch=(prompts.map stubIds).length :=
      List.length_map _
    rw [hb,List.length_map]
  row prompts index prompt h := by
    have hids : (prompts.map stubIds)[index]?=some (stubIds prompt) := by
      rw [List.getElem?_map,h,Option.map_some]
    have hones : (prompts.map fun prompt => List.replicate (stubIds prompt).length 1)[index]?=
        some (List.replicate (stubIds prompt).length 1) := by
      rw [List.getElem?_map,h,Option.map_some]
    have hwidths : (prompts.map fun prompt => List.replicate (stubIds prompt).length 1).map
        List.length=(prompts.map stubIds).map List.length := by
      simp only [List.map_map,Function.comp_def,List.length_replicate]
    refine ⟨_,row_leftPadded 0 hids,?_⟩
    rw [stubTokenizer,row_leftPadded 0 hones,hwidths,List.length_replicate,
      List.length_replicate,leftMask]

/-- Such a model treats rows independently when a budget only cuts. -/
theorem rowModel_rowsIndependent {continuation : Sampling → List ℕ → ℕ → List ℕ}
    (h : ∀ (sampling : Sampling) ids budget budget', sampling.doSample=false →
      budget≤budget' → continuation sampling ids budget=
        (continuation sampling ids budget').take budget) :
    RowsIndependent (rowModel continuation) continuation where
  batch draws call := by rw [Tensor.batch,rowModel,List.length_map,List.length_range]
  row draws call _ index hi := by
    rw [Tensor.row,rowModel,List.getElem?_map,List.getElem?_range hi]
    rfl
  cut := h

theorem countUp_cut (sampling : Sampling) (ids : List ℕ) (budget budget' : ℕ)
    (_ : sampling.doSample=false) (h : budget≤budget') :
    countUp sampling ids budget=(countUp sampling ids budget').take budget := by
  rw [countUp,countUp]
  rcases Nat.le_total budget ids.sum with hs | hs
  · rw [List.take_range'_of_length_ge (by omega),Nat.min_eq_left hs]
  · rw [List.take_range'_of_length_le (by omega),Nat.min_eq_right hs,
      Nat.min_eq_right (hs.trans h)]

/-! ## Rows of shared batches -/

/-- A row's result is its own in two batches that agree on it exactly when
both batches are led by a request for its sampling and, when it is greedy, the
other rows go on alike past its end and within its budget. -/
theorem row_unswayed_iff {tokenizer : Tokenizer Token} {idsOf : String → List Token}
    {model : Draws → Call Token → Tensor Token}
    {continuation : Sampling → List Token → ℕ → List Token}
    (hT : LeftPads tokenizer idsOf) (hM : RowsIndependent model continuation)
    (draws draws' : Draws) {batch batch' : Batch} {index : ℕ} {prompt : String}
    {setting : GenerationConfig} (hr : batch[index]?=some (prompt,setting))
    (hr' : batch'[index]?=some (prompt,setting)) :
    Unswayed tokenizer (model draws) (model draws') batch batch' index setting ↔
      LedAlike batch setting ∧ LedAlike batch' setting ∧ (setting.greedy → ∀ position,
        (ownTokens continuation idsOf prompt setting).length≤position →
        position<setting.maxNewTokens →
        (GoesOn continuation idsOf batch index setting position ↔
          GoesOn continuation idsOf batch' index setting position)) := by
  obtain ⟨first,-,hc⟩ := call_some tokenizer hr
  obtain ⟨first',-,hc'⟩ := call_some tokenizer hr'
  have hled : LedAlike batch setting ↔ _ := ledAlike_iff tokenizer hr
  have hled' : LedAlike batch' setting ↔ _ := ledAlike_iff tokenizer hr'
  have hsampling : samplingOf first.2=samplingOf setting ↔ LedAlike batch setting := by
    rw [hled,hc,Option.map_some,Option.some.injEq]
  have hsampling' : samplingOf first'.2=samplingOf setting ↔ LedAlike batch' setting := by
    rw [hled',hc',Option.map_some,Option.some.injEq]
  constructor
  · intro h
    have hl := hled.mpr h.sampled
    have hl' := hled'.mpr h.sampled'
    refine ⟨hl,hl',fun hg => ?_⟩
    exact (result_same_iff draws draws' hT hM hr hr' hc hc' (hsampling.mpr hl)
      (hsampling'.mpr hl') hg).mp (h.same hg)
  · rintro ⟨hl,hl',h⟩
    refine ⟨hled.mp hl,hled'.mp hl',fun hg => ?_⟩
    exact (result_same_iff draws draws' hT hM hr hr' hc hc' (hsampling.mpr hl)
      (hsampling'.mpr hl') hg).mpr (h hg)

/-- Settings of a greedy request. -/
def greedySetting : GenerationConfig := {temperature := 0}

/-- A greedy row is the same alone and before a greedy prompt that ends no
later. -/
theorem countUp_unswayed : Unswayed stubTokenizer (rowModel countUp ()) (rowModel countUp ())
    [("a",greedySetting)] [("a",greedySetting),("b",greedySetting)] 0 greedySetting := by
  refine (row_unswayed_iff stubTokenizer_leftPads (rowModel_rowsIndependent countUp_cut) () ()
    (show _=some ("a",_) from rfl) rfl).mpr ⟨⟨_,rfl,rfl,rfl,rfl⟩,⟨_,rfl,rfl,rfl,rfl⟩,?_⟩
  intro _ position ho _
  have hown : 2≤position := ho
  refine ⟨fun h => ?_,fun h => ?_⟩
  · obtain ⟨other,row,hne,hr,-⟩ := h
    cases other with
    | zero => exact absurd rfl hne
    | succ other => cases hr
  · obtain ⟨other,row,hne,hr,hp⟩ := h
    match other with
    | 0 => exact absurd rfl hne
    | 1 =>
      cases hr
      exact absurd hp (Nat.not_lt.mpr hown)
    | other+2 => cases hr

/-- A greedy request behind one that samples is sampled, and behind a longer
greedy one it is said to have generated more tokens. -/
theorem sharedRows_sway : LeftPads stubTokenizer stubIds ∧
    RowsIndependent (rowModel countUp) countUp ∧
    ¬Unswayed stubTokenizer (rowModel countUp ()) (rowModel countUp ())
      [("b",greedySetting),("a",greedySetting)] [("b",{}),("a",greedySetting)] 1 greedySetting ∧
    ¬Unswayed stubTokenizer (rowModel countUp ()) (rowModel countUp ())
      [("b",greedySetting),("a",greedySetting)] [("b c",greedySetting),("a",greedySetting)] 1
      greedySetting := by
  refine ⟨stubTokenizer_leftPads,rowModel_rowsIndependent countUp_cut,fun h => ?_,fun h => ?_⟩
  · have hsample := congrArg Sampling.doSample (Option.some.inj h.sampled')
    exact absurd hsample (by decide)
  · obtain ⟨result,hr,hr'⟩ := h.same rfl
    have hcount := congrArg (Option.map (·.generatedTokens)) (hr.trans hr'.symm)
    exact absurd hcount (by decide +kernel)

end CudaForge.BatchGeneration
