import CudaForge.LoggedPrograms
import CudaForge.SpeculativeGreedy

/-!
# The requests of a speculative decoder

The decoding loop once more, with its calls to the two models and to their
caches written down as they are made, so that they are known also when an
exception ends the run. The models answer as they like and draws fall as
they like. A cache is the list of tokens it holds: a call adds its input,
and cropping drops tokens from the end. Dropping the log from a run with
history models gives the decoder without a log.
-/

namespace CudaForge.SpeculativeRequests

open PythonBuiltins GenerationSettings SpeculativeDecoding SpeculativeAlignment SpeculativeGreedy
  ExceptionState LoggedPrograms

/-- Which of the two models is asked. -/
inductive Side where
  | draft
  | target
  deriving DecidableEq,Repr

/-- What the decoder asks of a model or of its cache. -/
inductive Request (Token : Type) where
  /-- A model is called on new tokens behind the tokens it holds. The settled
  context and the proposals made so far in the block are those of the
  decoder's variables at that moment; no model sees them. -/
  | call (side : Side) (held inputIds context proposals : List Token)
  /-- A cache drops so many of the tokens it holds. -/
  | crop (side : Side) (held : List Token) (excess : ℕ)
  deriving DecidableEq,Repr

/-- Two models over one outside world: the rows each answers, or the
exception it raises, for the tokens it holds and the new ones. -/
structure Models (ω Token Row : Type) where
  /-- The answer to a call. -/
  answer : Side → List Token → List Token → EStateM PyError ω (List Row)

variable {P : Type} [Field P] [LinearOrder P]
variable {ω Token Row : Type} [DecidableEq Token] [Fintype Token]

/-- A program of the decoder, which logs its requests. -/
abbrev Requesting (ω Token : Type) := Logged PyError ω (Request Token)

/-- Draws are made outside and leave the log alone. -/
def logSampling (sampling : Sampling (EStateM PyError ω) P Row Token) :
    Sampling (Requesting ω Token) P Row Token where
  argmax := sampling.argmax
  distribution := sampling.distribution
  multinomial probabilities := outside (sampling.multinomial probabilities)
  randBelow bound := outside (sampling.randBelow bound)

omit [Field P] [LinearOrder P] [DecidableEq Token] [Fintype Token] in
@[simp] theorem logSampling_argmax (sampling : Sampling (EStateM PyError ω) P Row Token)
    (logits : Row) : (logSampling sampling).argmax logits=sampling.argmax logits := rfl

/-- Call a model; its cache then holds the new tokens too. -/
def callModel (models : Models ω Token Row) (side : Side) (context proposals : List Token)
    (cache : Option (List Token)) (inputIds : List Token) :
    Requesting ω Token (List Row×List Token) := do
  record (.call side (cache.getD []) inputIds context proposals)
  let rows ← outside (models.answer side (cache.getD []) inputIds)
  pure (rows,cache.getD []++inputIds)

/-- Drop the tokens of a cache beyond the wanted ones; nothing is asked when
there are none to drop. -/
def crop (side : Side) (cache : Option (List Token)) (current wanted : ℕ) :
    Requesting ω Token (Option (List Token)) :=
  if wanted<current then
    match cache with
    | none => throw (.attributeError "'NoneType' object has no attribute 'crop'")
    | some held => do
      record (.crop side held (current-wanted))
      pure (some (held.take (held.length-(current-wanted))))
  else pure cache

/-- One step of the draft: a call and the token drawn from its last row. -/
def draftStep (models : Models ω Token Row)
    (sampling : Sampling (EStateM PyError ω) P Row Token) (generation : GenerationConfig)
    (greedy : Bool) (context proposals : List Token) (cache : Option (List Token))
    (stepInput : List Token) : Requesting ω Token ((Token×(Token → P))×List Token) := do
  let output ← callModel models .draft context proposals cache stepInput
  match output.1.getLast? with
  | none => throw listIndexError
  | some logits => do
    let drawn ← proposeToken (logSampling sampling) generation greedy logits
    pure (drawn,output.2)

/-- Run the draft model so many more times, one token per call, behind the
proposals made so far. -/
def propose (models : Models ω Token Row) (sampling : Sampling (EStateM PyError ω) P Row Token)
    (generation : GenerationConfig) (greedy : Bool) (context : List Token) :
    ℕ → Option (List Token) → List Token → List Token → List (Token → P) → SpeculativeStats →
      Requesting ω Token (Proposed Unit (List Token) P Token)
  | 0,cache,_,proposals,distributions,stats => pure ⟨proposals,distributions,cache,(),stats⟩
  | span+1,cache,stepInput,proposals,distributions,stats => do
    let step ← draftStep models sampling generation greedy context proposals cache stepInput
    propose models sampling generation greedy context span (some step.2) [step.1.1]
      (proposals++[step.1.1]) (distributions++[step.1.2])
      {stats with draftCalls := stats.draftCalls+1}

/-- The loop's variables when a cache is the tokens it holds. -/
abbrev Variables (Token : Type) := Decoding Unit (List Token) Unit (List Token) Token

/-- Roll the draft's cache back to what was accepted, if it has one. -/
def rollback (cache : Option (List Token)) (ingested covered position : ℕ) :
    Requesting ω Token (ℕ×Option (List Token)) :=
  match cache with
  | none => pure (ingested,none)
  | some held => do
    let cropped ← crop .draft (some held) covered (min covered position)
    pure (min covered position,cropped)

/-- One block: propose, verify in one target pass, roll both caches back. -/
def decodeBlock (models : Models ω Token Row)
    (sampling : Sampling (EStateM PyError ω) P Row Token) (generation : GenerationConfig)
    (greedy : Bool) (span : ℕ) (s : Variables Token) :
    Requesting ω Token (Block Unit (List Token) Unit (List Token) Token) := do
  let base := s.context.length
  let proposed ← propose models sampling generation greedy s.context span s.draftCache
    (s.context.drop s.draftIngested) [] [] s.stats
  -- the draft ingests its pending tokens and every proposal but the last
  let covered := base+span-1
  let output ← callModel models .target s.context proposed.proposals s.targetCache
    (s.context.drop s.targetIngested++proposed.proposals)
  -- the last `span+1` rows align with the proposals
  let verdict := output.1.drop (output.1.length-(span+1))
  let verified ← verify (logSampling sampling) generation greedy proposed.proposals verdict
    proposed.distributions
  let position := base+verified.1
  let targetCache ← crop .target (some output.2) (base+span) position
  let rolled ← rollback proposed.cache s.draftIngested covered position
  pure ⟨proposed.proposals,verified.1,verified.2,targetCache,(),rolled.1,rolled.2,(),
    proposed.stats⟩

/-- Decode block after block until the context reaches the limit. -/
def decodeLoop (models : Models ω Token Row) (lookahead : ℕ)
    (sampling : Sampling (EStateM PyError ω) P Row Token) (generation : GenerationConfig)
    (greedy : Bool) (limit : ℕ) (s : Variables Token) : Requesting ω Token (Variables Token) :=
  if _ : s.context.length<limit then do
    let remaining := limit-s.context.length
    let span := min lookahead remaining
    let b ← decodeBlock models sampling generation greedy span s
    decodeLoop models lookahead sampling generation greedy limit (settle s span remaining b)
  else pure s
termination_by limit-s.context.length
decreasing_by
  have hp := settled_pos b (show 0<limit-s.context.length by omega)
  simp only [settle,List.length_append]
  omega

/-- A target with a draft proposing ahead of it, as the constructor takes
them. -/
structure Decoder (ω Token Row : Type) where
  /-- The two models. -/
  models : Models ω Token Row
  /-- How many tokens the draft proposes at a time. -/
  lookahead : ℕ := 4
  lookahead_pos : 1≤lookahead

/-- Generate from a single prompt. -/
def Decoder.generate (decoder : Decoder ω Token Row)
    (sampling : Sampling (EStateM PyError ω) P Row Token) (generation : GenerationConfig)
    (prompt : List Token) : Requesting ω Token (List Token×SpeculativeStats) := do
  let s ← decodeLoop decoder.models decoder.lookahead sampling generation
    (decide (generation.temperature≤0)) (prompt.length+generation.maxNewTokens)
    (.start prompt () ())
  pure (s.context.drop prompt.length,s.stats)

/-- The requests of one run, in order, whether it returns or raises. -/
def Decoder.requests (decoder : Decoder ω Token Row)
    (sampling : Sampling (EStateM PyError ω) P Row Token) (generation : GenerationConfig)
    (prompt : List Token) (w : ω) : List (Request Token) :=
  match decoder.generate sampling generation prompt (w,[]) with
  | .ok _ s => s.2
  | .error _ s => s.2

/-- Two models that answer every history from one table of rows. -/
def Models.Tabulated (models : Models ω Token Row) (row : Side → List Token → Row) : Prop :=
  ∀ side held inputIds,
    models.answer side held inputIds=pure (historyRows (row side) held inputIds)

section Shadow

variable {models : Models ω Token Row} {row : Side → List Token → Row}
variable (sampling : Sampling (EStateM PyError ω) P Row Token) (generation : GenerationConfig)
variable (greedy : Bool)

omit [DecidableEq Token] [Fintype Token] in
/-- A call of a tabulated model reads its table. -/
theorem shadows_callModel (hm : models.Tabulated row) (side : Side)
    (context proposals inputIds : List Token) (cache : Option (List Token)) :
    Shadows (callModel models side context proposals cache inputIds)
      (pure (historyRows (row side) (cache.getD []) inputIds,cache.getD []++inputIds)) := by
  apply shadows_record
  rw [hm side]
  exact (shadows_outside (pure (historyRows (row side) (cache.getD []) inputIds))).bind
    fun rows => shadows_pure (rows,cache.getD []++inputIds)

omit [LinearOrder P] [Fintype Token] in
theorem shadows_proposeToken (logits : Row) :
    Shadows (proposeToken (logSampling sampling) generation greedy logits :
      Requesting ω Token (Token×(Token → P)))
      (proposeToken sampling generation greedy logits) := by
  cases greedy with
  | true => exact shadows_pure _
  | false =>
    exact (shadows_outside (sampling.multinomial (sampling.distribution logits generation))).bind
      fun token => shadows_pure (token,sampling.distribution logits generation)

omit [Field P] [LinearOrder P] [DecidableEq Token] [Fintype Token] in
theorem shadows_bonusToken (bonus : Row) :
    Shadows (bonusToken (logSampling sampling) generation greedy bonus : Requesting ω Token Token)
      (bonusToken sampling generation greedy bonus) := by
  cases greedy with
  | true => exact shadows_pure _
  | false => exact shadows_outside _

omit [DecidableEq Token] in
theorem shadows_resample (target draft : Token → P) :
    Shadows (resample (logSampling sampling) target draft : Requesting ω Token Token)
      (resample sampling target draft) := by
  by_cases ht : 0<∑ x, max (target x-draft x) 0
  · simp only [resample,if_pos ht]
    exact shadows_outside _
  · simp only [resample,if_neg ht]
    exact shadows_throw _

/-- The verdict makes no request. -/
theorem shadows_verify (proposals : List Token) :
    ∀ (verdict : List Row) (distributions : List (Token → P)),
      Shadows (verify (logSampling sampling) generation greedy proposals verdict distributions :
        Requesting ω Token (ℕ×Token))
        (verify sampling generation greedy proposals verdict distributions) := by
  induction proposals with
  | nil =>
    intro verdict distributions
    cases verdict with
    | nil =>
      rw [verify,verify]
      exact shadows_throw listIndexError
    | cons bonus verdict =>
      rw [verify,verify]
      exact (shadows_bonusToken sampling generation greedy bonus).bind fun token =>
        shadows_pure (0,token)
  | cons proposed proposals ih =>
    intro verdict distributions
    cases verdict with
    | nil =>
      rw [verify,verify]
      exact shadows_throw listIndexError
    | cons logits verdict =>
      cases greedy with
      | true =>
        rw [verify_greedy_cons,verify_greedy_cons,logSampling_argmax]
        by_cases ha : sampling.argmax logits=proposed
        · rw [if_pos ha,if_pos ha]
          exact (ih verdict distributions.tail).bind fun later =>
            shadows_pure (later.1+1,later.2)
        · rw [if_neg ha,if_neg ha]
          exact shadows_pure (0,sampling.argmax logits)
      | false =>
        cases distributions with
        | nil =>
          rw [verify,verify]
          exact shadows_throw listIndexError
        | cons draft distributions =>
          rw [verify,verify,if_neg Bool.false_ne_true,if_neg Bool.false_ne_true]
          refine (shadows_outside (accepts sampling (sampling.distribution logits generation)
            draft proposed)).bind fun accepted => ?_
          cases accepted with
          | true =>
            exact (ih verdict distributions).bind fun later => shadows_pure (later.1+1,later.2)
          | false =>
            exact (shadows_resample sampling _ draft).bind fun token => shadows_pure (0,token)

omit [LinearOrder P] [Fintype Token] in
/-- A step of the draft that finds a row draws from it. -/
theorem shadows_draftStep (hm : models.Tabulated row) {stepInput : List Token}
    {cache : Option (List Token)} {logits : Row}
    (hl : (historyRows (row .draft) (cache.getD []) stepInput).getLast?=some logits)
    (context proposals : List Token) :
    Shadows (draftStep models sampling generation greedy context proposals cache stepInput)
      (do
        let drawn ← proposeToken sampling generation greedy logits
        pure (drawn,cache.getD []++stepInput)) := by
  refine (shadows_callModel hm .draft context proposals stepInput cache).after ?_
  simp only [hl]
  exact (shadows_proposeToken sampling generation greedy logits).bind fun drawn =>
    shadows_pure (drawn,cache.getD []++stepInput)

omit [LinearOrder P] [Fintype Token] in
/-- A step of the draft that finds no row raises. -/
theorem shadows_draftStep_none (hm : models.Tabulated row) {stepInput : List Token}
    {cache : Option (List Token)}
    (hl : (historyRows (row .draft) (cache.getD []) stepInput).getLast?=none)
    (context proposals : List Token) :
    Shadows (draftStep models sampling generation greedy context proposals cache stepInput)
      (throw listIndexError) := by
  refine (shadows_callModel hm .draft context proposals stepInput cache).after ?_
  simp only [hl]
  exact shadows_throw listIndexError

omit [LinearOrder P] [Fintype Token] in
/-- A round of proposals, behind those made before it. -/
theorem shadows_propose (hm : models.Tabulated row) (context : List Token) (n : ℕ) :
    ∀ (cache : Option (List Token)) (stepInput proposals : List Token)
      (distributions : List (Token → P)) (stats : SpeculativeStats),
      Shadows (propose models sampling generation greedy context n cache stepInput proposals
        distributions stats)
        (do
          let p ← SpeculativeDecoding.propose (historyModel (row .draft)) sampling generation
            greedy n () cache stepInput stats
          pure {p with
            proposals := proposals++p.proposals
            distributions := distributions++p.distributions}) := by
  induction n with
  | zero =>
    intro cache stepInput proposals distributions stats
    rw [propose,SpeculativeDecoding.propose,pure_bind,List.append_nil,List.append_nil]
    exact shadows_pure _
  | succ n ih =>
    intro cache stepInput proposals distributions stats
    rw [propose,SpeculativeDecoding.propose]
    have hrows : ((historyModel (row .draft)).call () cache stepInput).1=
        historyRows (row .draft) (cache.getD []) stepInput := rfl
    simp only [hrows]
    cases hl : (historyRows (row .draft) (cache.getD []) stepInput).getLast? with
    | none =>
      exact (shadows_draftStep_none sampling generation greedy hm hl context proposals).ended _
    | some logits =>
      have hd := (shadows_draftStep sampling generation greedy hm hl context proposals).bind
        fun step => ih (some step.2) [step.1.1] (proposals++[step.1.1])
          (distributions++[step.1.2]) {stats with draftCalls := stats.draftCalls+1}
      simp only [bind_assoc,pure_bind,List.append_assoc,List.singleton_append] at hd
      simp only [bind_assoc,pure_bind]
      exact hd

omit [Field P] [LinearOrder P] [DecidableEq Token] [Fintype Token] in
/-- Cropping does to a cache what a history model does. -/
theorem shadows_crop (table : List Token → Row) (side : Side) (cache : Option (List Token))
    (current wanted : ℕ) :
    Shadows (crop side cache current wanted : Requesting ω Token (Option (List Token)))
      (cropCache (historyModel table) cache current wanted) := by
  unfold crop cropCache
  by_cases hw : wanted<current
  · rw [if_pos hw,if_pos hw]
    cases cache with
    | none => exact shadows_throw _
    | some held => exact shadows_record _ (shadows_pure _)
  · rw [if_neg hw,if_neg hw]
    exact shadows_pure cache

omit [Field P] [LinearOrder P] [DecidableEq Token] [Fintype Token] in
theorem shadows_rollback (table : List Token → Row) (cache : Option (List Token))
    (ingested covered position : ℕ) :
    Shadows (rollback cache ingested covered position : Requesting ω Token (ℕ×Option (List Token)))
      (rollbackDraft (historyModel table) cache ingested covered position) := by
  cases cache with
  | none => exact shadows_pure (ingested,none)
  | some held =>
    exact (shadows_crop table .draft (some held) covered (min covered position)).bind
      fun cropped => shadows_pure (min covered position,cropped)

/-- A block, over the tables. -/
theorem shadows_decodeBlock (hm : models.Tabulated row) (span : ℕ) (s : Variables Token) :
    Shadows (decodeBlock models sampling generation greedy span s)
      (SpeculativeDecoding.decodeBlock (historyModel (row .target)) (historyModel (row .draft))
        sampling generation greedy span s) := by
  have hp : Shadows (propose models sampling generation greedy s.context span s.draftCache
      (s.context.drop s.draftIngested) [] [] s.stats)
      (SpeculativeDecoding.propose (historyModel (row .draft)) sampling generation greedy span
        s.draftState s.draftCache (s.context.drop s.draftIngested) s.stats) := by
    rw [←bind_pure (SpeculativeDecoding.propose _ _ _ _ _ _ _ _ _)]
    exact shadows_propose sampling generation greedy hm s.context span s.draftCache
      (s.context.drop s.draftIngested) [] [] s.stats
  refine hp.bind fun proposed => ?_
  refine (shadows_callModel hm .target s.context proposed.proposals _ s.targetCache).after ?_
  refine (shadows_verify sampling generation greedy proposed.proposals _
    proposed.distributions).bind fun verified => ?_
  refine (shadows_crop (row .target) .target _ _ _).bind fun targetCache => ?_
  refine (shadows_rollback (row .draft) proposed.cache s.draftIngested _ _).bind
    fun rolled => ?_
  exact shadows_pure _

/-- A whole loop, over the tables. -/
theorem shadows_decodeLoop (hm : models.Tabulated row) (lookahead limit : ℕ) (n : ℕ) :
    ∀ s : Variables Token, limit-s.context.length=n →
      Shadows (decodeLoop models lookahead sampling generation greedy limit s)
        (SpeculativeDecoding.decodeLoop (historyModel (row .target)) (historyModel (row .draft))
          lookahead sampling generation greedy limit s) := by
  induction n using Nat.strong_induction_on with
  | _ n ih =>
    intro s hn
    rw [decodeLoop,SpeculativeDecoding.decodeLoop]
    by_cases hc : s.context.length<limit
    · rw [dif_pos hc,dif_pos hc]
      refine (shadows_decodeBlock sampling generation greedy hm _ s).bind fun b => ?_
      refine ih _ ?_ _ rfl
      have hpos := settled_pos b (show 0<limit-s.context.length by omega)
      rw [settle,List.length_append]
      omega
    · rw [dif_neg hc,dif_neg hc]
      exact shadows_pure s

end Shadow

/-- Without its log, a run of two tabulated models is a run of the decoder
over two history models: the same draws, the same result. -/
theorem generate_shadows (decoder : Decoder ω Token Row) {row : Side → List Token → Row}
    (hm : decoder.models.Tabulated row)
    (sampling : Sampling (EStateM PyError ω) P Row Token) (generation : GenerationConfig)
    (prompt : List Token) :
    Shadows (decoder.generate sampling generation prompt)
      (SpeculativeDecoder.generate ⟨historyModel (row .target),historyModel (row .draft),
        decoder.lookahead,decoder.lookahead_pos⟩ sampling generation () () prompt) := by
  exact (shadows_decodeLoop sampling generation _ hm _ _ _ _ rfl).bind fun s =>
    shadows_pure (s.context.drop prompt.length,s.stats)

end CudaForge.SpeculativeRequests
