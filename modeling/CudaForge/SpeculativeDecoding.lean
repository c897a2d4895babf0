import Mathlib.Algebra.BigOperators.Group.Finset.Basic
import CudaForge.GenerationSettings
import CudaForge.PythonBuiltins

/-!
# Speculative decoding

A draft model proposes tokens, a target model checks them in one pass, and
both caches are rolled back to what was kept. The decoder is written over
any monad that can raise, which supplies the random draws; numbers are those
of any ordered field, so arithmetic is exact.
-/

namespace CudaForge.SpeculativeDecoding

open PythonBuiltins GenerationSettings

/-- A model called with new tokens and a cache. Caches have a type of their
own, and a model may carry a state from call to call. -/
structure Model (σ γ Token Row : Type) where
  /-- The logits of each new token, the cache handed back and the new state. -/
  call : σ → Option γ → List Token → List Row×Option γ×σ
  /-- The cache without so many of its last tokens. -/
  crop : γ → ℕ → γ
  /-- One row of logits for each token passed. -/
  rows_length : ∀ state cache tokens, (call state cache tokens).1.length=tokens.length

/-- What the decoder takes from torch and from the sampling settings. -/
structure Sampling (M : Type → Type) (P Row Token : Type) where
  /-- The most likely token of a row of logits. -/
  argmax : Row → Token
  /-- The filtered and normalised probabilities of a row. -/
  distribution : Row → GenerationConfig → Token → P
  /-- Draw one token with the given probabilities. -/
  multinomial : (Token → P) → M Token
  /-- Compare a uniform draw from `[0,1)` with a bound. -/
  randBelow : P → M Bool

/-- What the speculation bought. -/
structure SpeculativeStats where
  /-- Passes over the target model. -/
  targetCalls : ℕ := 0
  /-- Passes over the draft model. -/
  draftCalls : ℕ := 0
  /-- Tokens the draft proposed. -/
  proposed : ℕ := 0
  /-- Proposals the target kept. -/
  accepted : ℕ := 0
  /-- Tokens settled, after clipping. -/
  generated : ℕ := 0
  deriving DecidableEq,Repr

/-- What one round of proposals hands back. -/
structure Proposed (σ γ P Token : Type) where
  /-- The proposals, in order. -/
  proposals : List Token
  /-- The distribution each was drawn from. -/
  distributions : List (Token → P)
  /-- The draft's cache. -/
  cache : Option γ
  /-- The draft's state. -/
  state : σ
  /-- The counters, with the draft calls made. -/
  stats : SpeculativeStats

variable {M : Type → Type} [Monad M] [MonadExceptOf PyError M]
variable {P : Type} [Field P] [LinearOrder P]
variable {σ γ τ κ Row Token : Type} [DecidableEq Token] [Fintype Token]

/-- All mass on one token. -/
def pointMass (token : Token) : Token → P := fun other => if other=token then 1 else 0

/-- One proposal: the most likely token, or a draw. -/
def proposeToken (sampling : Sampling M P Row Token) (generation : GenerationConfig)
    (greedy : Bool) (logits : Row) : M (Token×(Token → P)) :=
  if greedy then pure (sampling.argmax logits,pointMass (sampling.argmax logits))
  else do
    let probabilities := sampling.distribution logits generation
    let token ← sampling.multinomial probabilities
    pure (token,probabilities)

/-- Run the draft model `span` times, one token per call. -/
def propose (draft : Model σ γ Token Row) (sampling : Sampling M P Row Token)
    (generation : GenerationConfig) (greedy : Bool) :
    ℕ → σ → Option γ → List Token → SpeculativeStats → M (Proposed σ γ P Token)
  | 0,state,cache,_,stats => pure ⟨[],[],cache,state,stats⟩
  | span+1,state,cache,stepInput,stats =>
    let output := draft.call state cache stepInput
    match output.1.getLast? with
    | none => throw listIndexError
    | some logits => do
      let drawn ← proposeToken sampling generation greedy logits
      let later ← propose draft sampling generation greedy span output.2.2 output.2.1 [drawn.1]
        {stats with draftCalls := stats.draftCalls+1}
      pure {later with
        proposals := drawn.1::later.proposals
        distributions := drawn.2::later.distributions}

/-- The token after a full accept, from the trailing logits. -/
def bonusToken (sampling : Sampling M P Row Token) (generation : GenerationConfig)
    (greedy : Bool) (bonus : Row) : M Token :=
  if greedy then pure (sampling.argmax bonus)
  else sampling.multinomial (sampling.distribution bonus generation)

/-- The acceptance test of one proposal: its target probability over its
draft probability, at most one, against a uniform draw. -/
def accepts (sampling : Sampling M P Row Token) (target draft : Token → P) (proposed : Token) :
    M Bool :=
  sampling.randBelow (min (target proposed/draft proposed) 1)

/-- The token that replaces a rejected proposal, drawn from what the target
wanted but the draft under-proposed. -/
def resample (sampling : Sampling M P Row Token) (target draft : Token → P) : M Token :=
  let residual : Token → P := fun x => max (target x-draft x) 0
  let total := ∑ x, residual x
  if 0<total then sampling.multinomial (fun x => residual x/total)
  else throw (.assertionError "a rejected proposal implies a non-empty residual")

/-- How many proposals survive, and the token that follows them. The rows of
the verdict and the draft's distributions are walked along with the
proposals. -/
def verify (sampling : Sampling M P Row Token) (generation : GenerationConfig) (greedy : Bool) :
    List Token → List Row → List (Token → P) → M (ℕ×Token)
  | [],[],_ => throw listIndexError
  | [],bonus::_,_ => do
    let token ← bonusToken sampling generation greedy bonus
    pure (0,token)
  | _::_,[],_ => throw listIndexError
  | proposed::proposals,row::verdict,distributions =>
    if greedy then
      if sampling.argmax row=proposed then do
        let later ← verify sampling generation greedy proposals verdict distributions.tail
        pure (later.1+1,later.2)
      else pure (0,sampling.argmax row)
    else
      match distributions with
      | [] => throw listIndexError
      | draft::distributions => do
        let target := sampling.distribution row generation
        let accepted ← accepts sampling target draft proposed
        if accepted then
          let later ← verify sampling generation greedy proposals verdict distributions
          pure (later.1+1,later.2)
        else
          let token ← resample sampling target draft
          pure (0,token)

/-- Drop the tokens of a cache beyond the wanted ones; nothing is called when
there are none to drop. -/
def cropCache (model : Model σ γ Token Row) (cache : Option γ) (current wanted : ℕ) :
    M (Option γ) :=
  if wanted<current then
    match cache with
    | none => throw (.attributeError "'NoneType' object has no attribute 'crop'")
    | some held => pure (some (model.crop held (current-wanted)))
  else pure cache

/-- What the decoding loop carries from block to block. -/
structure Decoding (σ γ τ κ Token : Type) where
  /-- Every token settled so far, prompt included. -/
  context : List Token
  /-- Tokens of the context in the target's cache. -/
  targetIngested : ℕ
  /-- Tokens of the context in the draft's cache. -/
  draftIngested : ℕ
  /-- The target's cache. -/
  targetCache : Option κ
  /-- The target's state. -/
  targetState : τ
  /-- The draft's cache. -/
  draftCache : Option γ
  /-- The draft's state. -/
  draftState : σ
  /-- The counters. -/
  stats : SpeculativeStats
  /-- For each target call so far, the tokens it yielded before clipping; no
  step reads them. -/
  yields : List ℕ

/-- What one block hands to the loop. -/
structure Block (σ γ τ κ Token : Type) where
  /-- The proposals. -/
  proposals : List Token
  /-- How many of them were kept. -/
  taken : ℕ
  /-- The token that follows them. -/
  replacement : Token
  /-- The target's cache, rolled back. -/
  targetCache : Option κ
  /-- The target's state. -/
  targetState : τ
  /-- Tokens of the new context in the draft's cache. -/
  draftIngested : ℕ
  /-- The draft's cache, rolled back. -/
  draftCache : Option γ
  /-- The draft's state. -/
  draftState : σ
  /-- The counters, with the draft calls made. -/
  stats : SpeculativeStats

/-- Roll the draft's cache back to what was accepted, if it has one. -/
def rollbackDraft (draft : Model σ γ Token Row) (cache : Option γ)
    (ingested covered position : ℕ) : M (ℕ×Option γ) :=
  match cache with
  | none => pure (ingested,none)
  | some held => do
    let cropped ← cropCache draft (some held) covered (min covered position)
    pure (min covered position,cropped)

/-- One block: propose, verify in one target pass, roll both caches back. -/
def decodeBlock (target : Model τ κ Token Row) (draft : Model σ γ Token Row)
    (sampling : Sampling M P Row Token) (generation : GenerationConfig) (greedy : Bool)
    (span : ℕ) (s : Decoding σ γ τ κ Token) : M (Block σ γ τ κ Token) := do
  let base := s.context.length
  let proposed ← propose draft sampling generation greedy span s.draftState s.draftCache
    (s.context.drop s.draftIngested) s.stats
  -- the draft ingests its pending tokens and every proposal but the last
  let covered := base+span-1
  let output := target.call s.targetState s.targetCache
    (s.context.drop s.targetIngested++proposed.proposals)
  -- the last `span+1` rows align with the proposals
  let verdict := output.1.drop (output.1.length-(span+1))
  let verified ← verify sampling generation greedy proposed.proposals verdict
    proposed.distributions
  let position := base+verified.1
  let targetCache ← cropCache target output.2.1 (base+span) position
  let rolled ← rollbackDraft draft proposed.cache s.draftIngested covered position
  pure ⟨proposed.proposals,verified.1,verified.2,targetCache,output.2.2,rolled.1,rolled.2,
    proposed.state,proposed.stats⟩

/-- The tokens a block settles: those kept and their successor, clipped to
the budget. -/
def Block.settled (b : Block σ γ τ κ Token) (remaining : ℕ) : List Token :=
  (b.proposals.take b.taken++[b.replacement]).take remaining

/-- The loop's variables after a block. -/
def settle (s : Decoding σ γ τ κ Token) (span remaining : ℕ) (b : Block σ γ τ κ Token) :
    Decoding σ γ τ κ Token where
  context := s.context++b.settled remaining
  targetIngested := s.context.length+b.taken
  draftIngested := b.draftIngested
  targetCache := b.targetCache
  targetState := b.targetState
  draftCache := b.draftCache
  draftState := b.draftState
  stats := {b.stats with
    targetCalls := b.stats.targetCalls+1
    proposed := b.stats.proposed+span
    accepted := b.stats.accepted+b.taken
    generated := b.stats.generated+(b.settled remaining).length}
  yields := s.yields++[b.taken+1]

omit [DecidableEq Token] [Fintype Token] in
/-- A block settles some token whatever it kept, so the loop cannot stall. -/
theorem settled_pos (b : Block σ γ τ κ Token) {remaining : ℕ} (hr : 0<remaining) :
    0<(b.settled remaining).length := by
  rw [Block.settled,List.length_take,List.length_append,List.length_singleton]
  omega

/-- Decode block after block until the context reaches the limit. -/
def decodeLoop (target : Model τ κ Token Row) (draft : Model σ γ Token Row) (lookahead : ℕ)
    (sampling : Sampling M P Row Token) (generation : GenerationConfig) (greedy : Bool)
    (limit : ℕ) (s : Decoding σ γ τ κ Token) : M (Decoding σ γ τ κ Token) :=
  if _ : s.context.length<limit then do
    let remaining := limit-s.context.length
    let span := min lookahead remaining
    let b ← decodeBlock target draft sampling generation greedy span s
    decodeLoop target draft lookahead sampling generation greedy limit (settle s span remaining b)
  else pure s
termination_by limit-s.context.length
decreasing_by
  have hp := settled_pos b (show 0<limit-s.context.length by omega)
  simp only [settle,List.length_append]
  omega

/-- A target model with a draft proposing ahead of it. -/
structure SpeculativeDecoder (σ γ τ κ Token Row : Type) where
  /-- The model whose output is produced. -/
  target : Model τ κ Token Row
  /-- The model that proposes. -/
  draft : Model σ γ Token Row
  /-- How many tokens the draft proposes at a time. -/
  lookahead : ℕ := 4
  lookahead_pos : 1≤lookahead

/-- The constructor's check. -/
def SpeculativeDecoder.create (target : Model τ κ Token Row) (draft : Model σ γ Token Row)
    (lookahead : ℕ) : Except PyError (SpeculativeDecoder σ γ τ κ Token Row) :=
  if h : lookahead<1 then
    .error (.valueError s!"lookahead must be at least 1, got {lookahead}")
  else .ok ⟨target,draft,lookahead,Nat.le_of_not_lt h⟩

/-- The variables before the first block. -/
def Decoding.start (prompt : List Token) (targetState : τ) (draftState : σ) :
    Decoding σ γ τ κ Token :=
  ⟨prompt,0,0,none,targetState,none,draftState,{},[]⟩

/-- The whole loop over one prompt. -/
def SpeculativeDecoder.decode (decoder : SpeculativeDecoder σ γ τ κ Token Row)
    (sampling : Sampling M P Row Token) (generation : GenerationConfig) (targetState : τ)
    (draftState : σ) (prompt : List Token) : M (Decoding σ γ τ κ Token) :=
  decodeLoop decoder.target decoder.draft decoder.lookahead sampling generation
    (decide (generation.temperature≤0)) (prompt.length+generation.maxNewTokens)
    (.start prompt targetState draftState)

/-- Generate from a single prompt. -/
def SpeculativeDecoder.generate (decoder : SpeculativeDecoder σ γ τ κ Token Row)
    (sampling : Sampling M P Row Token) (generation : GenerationConfig) (targetState : τ)
    (draftState : σ) (prompt : List Token) : M (List Token×SpeculativeStats) := do
  let s ← decoder.decode sampling generation targetState draftState prompt
  pure (s.context.drop prompt.length,s.stats)

end CudaForge.SpeculativeDecoding
