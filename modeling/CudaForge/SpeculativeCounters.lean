import CudaForge.SpeculativeRequests

/-!
# The counters of a speculative decoder

`SpeculativeStats` against the log of the calls that a run makes: both models
answer as they like, draws fall as they like, and a run may raise. What is
counted is what was called, each target call settles what it accepted and one
token more, and only the last call can settle one fewer.
-/

namespace CudaForge.SpeculativeCounters

open PythonBuiltins GenerationSettings SpeculativeDecoding SpeculativeAlignment ExceptionState
  LoggedPrograms SpeculativeRequests

variable {P : Type} [Field P] [LinearOrder P]
variable {ω Token Row : Type} [DecidableEq Token] [Fintype Token]

/-- A request is a call of one of the models. -/
def isCall (side : Side) : Request Token → Bool
  | .call other _ _ _ _ => decide (other=side)
  | .crop _ _ _ => false

/-- How often a model was called. -/
def calls (side : Side) (log : List (Request Token)) : ℕ := log.countP (isCall side)

/-- So many calls of the draft and of the target were made. -/
def Called (draft target : ℕ) (log : List (Request Token)) : Prop :=
  calls .draft log=draft ∧ calls .target log=target

omit [DecidableEq Token] [Fintype Token] in
/-- No request, no call. -/
theorem called_nil : Called 0 0 ([] : List (Request Token)) := ⟨rfl,rfl⟩

omit [DecidableEq Token] [Fintype Token] in
/-- Calls add up. -/
theorem Called.append {first second : List (Request Token)} {a b c d : ℕ}
    (hf : Called a b first) (hs : Called c d second) : Called (a+c) (b+d) (first++second) := by
  obtain ⟨ha,hb⟩ := hf
  obtain ⟨hc,hd⟩ := hs
  constructor
  · rw [calls,List.countP_append,←ha,←hc]
    rfl
  · rw [calls,List.countP_append,←hb,←hd]
    rfl

section Programs

variable {models : Models ω Token Row} (sampling : Sampling (EStateM PyError ω) P Row Token)
  (generation : GenerationConfig) (greedy : Bool)

omit [DecidableEq Token] [Fintype Token] in
/-- A call of a model. -/
theorem writes_callModel (side : Side) (context proposals : List Token)
    (cache : Option (List Token)) (inputIds : List Token) :
    Writes (callModel models side context proposals cache inputIds)
      (fun added _ => Called (if side=.draft then 1 else 0) (if side=.target then 1 else 0)
        added) := by
  refine (writes_record _).bind fun _ first hfirst => ?_
  refine (writes_outside _).bind fun rows second hsecond => ?_
  refine writes_pure ?_
  rw [hfirst,hsecond]
  cases side with
  | draft => exact ⟨rfl,rfl⟩
  | target => exact ⟨rfl,rfl⟩

omit [Fintype Token] [LinearOrder P] in
/-- A proposal is drawn without a call. -/
theorem writes_proposeToken (logits : Row) :
    Writes (proposeToken (logSampling sampling) generation greedy logits :
      Requesting ω Token (Token×(Token → P))) (fun added _ => added=[]) := by
  rw [proposeToken]
  split
  · exact writes_pure rfl
  · refine (writes_outside _).bind fun token first hfirst => writes_pure ?_
    rw [hfirst,List.append_nil]

omit [Fintype Token] [LinearOrder P] in
/-- One step of the draft is one call. -/
theorem writes_draftStep (context proposals : List Token) (cache : Option (List Token))
    (stepInput : List Token) :
    Writes (draftStep models sampling generation greedy context proposals cache stepInput)
      (fun added _ => Called 1 0 added) := by
  refine (writes_callModel .draft context proposals cache stepInput).bind
    fun output first hfirst => ?_
  split
  · exact writes_throw _
  · refine (writes_proposeToken sampling generation greedy _).bind fun drawn second hsecond =>
      writes_pure ?_
    rw [hsecond]
    exact hfirst.append called_nil

omit [Fintype Token] [LinearOrder P] in
/-- So many proposals are as many calls of the draft. -/
theorem writes_propose (context : List Token) (span : ℕ) :
    ∀ (cache : Option (List Token)) (stepInput proposals : List Token)
      (distributions : List (Token → P)) (stats : SpeculativeStats),
      Writes (propose models sampling generation greedy context span cache stepInput proposals
        distributions stats) (fun added proposed => Called span 0 added ∧
          proposed.proposals.length=proposals.length+span ∧
          proposed.stats={stats with draftCalls := stats.draftCalls+span}) := by
  induction span with
  | zero =>
    intro cache stepInput proposals distributions stats
    exact writes_pure ⟨called_nil,rfl,rfl⟩
  | succ span ih =>
    intro cache stepInput proposals distributions stats
    refine (writes_draftStep sampling generation greedy context proposals cache stepInput).bind
      fun step first hfirst => ?_
    refine (ih _ _ _ _ _).mono ?_
    rintro second proposed ⟨hcalled,hlen,hstats⟩
    refine ⟨?_,?_,?_⟩
    · have h := hfirst.append hcalled
      rwa [Nat.add_comm 1 span] at h
    · rw [hlen,List.length_append,List.length_singleton]
      omega
    · rw [hstats,Nat.add_assoc,Nat.add_comm 1 span]

omit [DecidableEq Token] in
/-- The replacement is drawn without a call. -/
theorem writes_resample (target draft : Token → P) :
    Writes (resample (logSampling sampling) target draft : Requesting ω Token Token)
      (fun added _ => added=[]) := by
  unfold resample
  dsimp only
  split
  · exact writes_outside _
  · exact writes_throw _

/-- Verifying calls no model, and keeps no more than was proposed. -/
theorem writes_verify (proposals : List Token) :
    ∀ (verdict : List Row) (distributions : List (Token → P)),
      Writes (verify (logSampling sampling) generation greedy proposals verdict distributions :
        Requesting ω Token (ℕ×Token))
        (fun added verified => added=[] ∧ verified.1 ≤ proposals.length) := by
  induction proposals with
  | nil =>
    intro verdict distributions
    cases verdict with
    | nil => exact writes_throw _
    | cons bonus rest =>
      have hbonus : Writes (bonusToken (logSampling sampling) generation greedy bonus :
          Requesting ω Token Token) (fun added _ => added=[]) := by
        rw [bonusToken]
        split
        · exact writes_pure rfl
        · exact writes_outside _
      refine hbonus.bind fun token first hfirst => writes_pure ⟨?_,Nat.le_refl 0⟩
      rw [hfirst,List.append_nil]
  | cons proposed proposals ih =>
    intro verdict distributions
    have hlater : ∀ rows distributions,
        Writes (do
          let later ← verify (logSampling sampling) generation greedy proposals rows distributions
          pure (later.1+1,later.2) : Requesting ω Token (ℕ×Token))
          (fun added verified => added=[] ∧ verified.1 ≤ (proposed::proposals).length) := by
      intro rows distributions
      refine (ih rows distributions).bind ?_
      rintro later first ⟨hfirst,hle⟩
      refine writes_pure ⟨by rw [hfirst,List.append_nil],?_⟩
      exact Nat.succ_le_succ hle
    cases verdict with
    | nil => exact writes_throw _
    | cons row verdict =>
      unfold verify
      split
      · split
        · exact hlater verdict distributions.tail
        · exact writes_pure ⟨rfl,Nat.zero_le _⟩
      · cases distributions with
        | nil => exact writes_throw _
        | cons draft distributions =>
          refine (writes_outside _).bind fun accepted first hfirst => ?_
          rw [hfirst]
          split
          · exact hlater verdict distributions
          · refine (writes_resample sampling _ _).bind fun token second hsecond =>
              writes_pure ⟨?_,Nat.zero_le _⟩
            rw [hsecond,List.append_nil]
            rfl

omit [DecidableEq Token] [Fintype Token] in
/-- Cropping a cache calls no model. -/
theorem writes_crop (side : Side) (cache : Option (List Token)) (current wanted : ℕ) :
    Writes (crop side cache current wanted : Requesting ω Token (Option (List Token)))
      (fun added _ => Called 0 0 added) := by
  unfold SpeculativeRequests.crop
  split
  · cases cache with
    | none => exact writes_throw _
    | some held =>
      refine (writes_record _).bind fun _ first hfirst => writes_pure ?_
      rw [hfirst]
      exact ⟨rfl,rfl⟩
  · exact writes_pure called_nil

omit [DecidableEq Token] [Fintype Token] in
/-- Rolling the draft back calls no model. -/
theorem writes_rollback (cache : Option (List Token)) (ingested covered position : ℕ) :
    Writes (rollback cache ingested covered position :
      Requesting ω Token (ℕ×Option (List Token))) (fun added _ => Called 0 0 added) := by
  cases cache with
  | none => exact writes_pure called_nil
  | some held =>
    refine (writes_crop .draft (some held) covered (min covered position)).bind
      fun cropped first hfirst => writes_pure ?_
    rwa [List.append_nil]

/-- One block calls the draft as often as it proposes, and the target once. -/
theorem writes_decodeBlock (span : ℕ) (s : Variables Token) :
    Writes (decodeBlock models sampling generation greedy span s)
      (fun added b => Called span 1 added ∧ b.proposals.length=span ∧ b.taken ≤ span ∧
        b.stats={s.stats with draftCalls := s.stats.draftCalls+span}) := by
  refine (writes_propose sampling generation greedy s.context span _ _ _ _ _).bind ?_
  rintro proposed first ⟨hfirst,hlen,hstats⟩
  rw [List.length_nil,Nat.zero_add] at hlen
  refine (writes_callModel .target s.context proposed.proposals s.targetCache _).bind
    fun output second hsecond => ?_
  refine (writes_verify sampling generation greedy proposed.proposals _ _).bind ?_
  rintro verified third ⟨hthird,htaken⟩
  refine (writes_crop .target (some output.2) _ _).bind fun targetCache fourth hfourth => ?_
  refine (writes_rollback proposed.cache s.draftIngested _ _).bind fun rolled fifth hfifth => ?_
  refine writes_pure ⟨?_,hlen,hlen ▸ htaken,hstats⟩
  have hcalled := hfirst.append (hsecond.append ((hthird ▸ called_nil : Called 0 0 third).append
    (hfourth.append (hfifth.append called_nil))))
  exact hcalled

/-- The counters of a run so far, against its log, the length of the prompt, the
limit of the context and the lookahead. -/
structure Counted (prompt lookahead limit : ℕ) (s : Variables Token)
    (log : List (Request Token)) : Prop where
  /-- Every call of the target is counted, and every call of the draft. -/
  called : Called s.stats.draftCalls s.stats.targetCalls log
  /-- Each proposal is one call of the draft. -/
  proposed : s.stats.proposed=s.stats.draftCalls
  /-- What was accepted was proposed. -/
  accepted : s.stats.accepted ≤ s.stats.proposed
  /-- A target call checks some proposal, and at most so many. -/
  checked : s.stats.targetCalls ≤ s.stats.proposed ∧
    s.stats.proposed ≤ lookahead*s.stats.targetCalls
  /-- What was generated stands behind the prompt. -/
  generated : s.context.length=prompt+s.stats.generated ∧ s.context.length ≤ limit
  /-- Below the limit nothing was clipped, and at it at most one token. -/
  yielded : s.stats.generated ≤ s.stats.accepted+s.stats.targetCalls ∧
    s.stats.accepted+s.stats.targetCalls ≤ s.stats.generated+1 ∧
    (s.context.length < limit → s.stats.generated=s.stats.accepted+s.stats.targetCalls)

variable {prompt lookahead limit : ℕ} {s : Variables Token} {log added : List (Request Token)}

omit [DecidableEq Token] [Fintype Token] in
/-- A block keeps the count. -/
theorem Counted.settle (h : Counted prompt lookahead limit s log) (hl : 1 ≤ lookahead)
    (hc : s.context.length < limit) {b : Block Unit (List Token) Unit (List Token) Token}
    (hcalled : Called (min lookahead (limit-s.context.length)) 1 added)
    (hlen : b.proposals.length=min lookahead (limit-s.context.length))
    (htaken : b.taken ≤ min lookahead (limit-s.context.length))
    (hstats : b.stats={s.stats with
      draftCalls := s.stats.draftCalls+min lookahead (limit-s.context.length)}) :
    Counted prompt lookahead limit
      (SpeculativeDecoding.settle s (min lookahead (limit-s.context.length))
        (limit-s.context.length) b) (log++added) := by
  have hsettled : (b.settled (limit-s.context.length)).length=
      min (limit-s.context.length) (b.taken+1) := by
    rw [Block.settled,List.length_take,List.length_append,List.length_take,hlen,
      List.length_singleton,Nat.min_eq_left htaken]
  have hadd := h.called.append hcalled
  obtain ⟨hge,hle⟩ := h.checked
  obtain ⟨hcontext,_⟩ := h.generated
  have hexact := h.yielded.2.2 hc
  have hspan : 1 ≤ min lookahead (limit-s.context.length) := by omega
  have hbound : min lookahead (limit-s.context.length) ≤ lookahead := Nat.min_le_left _ _
  have hrest : min lookahead (limit-s.context.length) ≤ limit-s.context.length :=
    Nat.min_le_right _ _
  generalize min lookahead (limit-s.context.length)=span at *
  have haccepted := h.accepted
  have hproposed := h.proposed
  constructor
  · simp only [SpeculativeDecoding.settle,hstats]
    exact hadd
  · simp only [SpeculativeDecoding.settle,hstats]
    omega
  · simp only [SpeculativeDecoding.settle,hstats]
    omega
  · simp only [SpeculativeDecoding.settle,hstats,Nat.mul_add,Nat.mul_one]
    omega
  · simp only [SpeculativeDecoding.settle,hstats,List.length_append,hsettled]
    omega
  · simp only [SpeculativeDecoding.settle,hstats,List.length_append,hsettled]
    omega

/-- The loop keeps the count, and stops at the limit. -/
theorem writes_decodeLoop (hl : 1 ≤ lookahead) (n : ℕ) :
    ∀ (s : Variables Token) (log : List (Request Token)), limit-s.context.length=n →
      Counted prompt lookahead limit s log →
      Writes (decodeLoop models lookahead sampling generation greedy limit s)
        (fun added v => Counted prompt lookahead limit v (log++added) ∧
          limit ≤ v.context.length) := by
  -- by induction on the tokens still missing; every block settles one
  induction n using Nat.strong_induction_on with
  | _ n ih =>
    intro s log hn hcounted
    rw [SpeculativeRequests.decodeLoop]
    by_cases hc : s.context.length < limit
    · rw [dif_pos hc]
      refine (writes_decodeBlock sampling generation greedy _ s).bind ?_
      rintro b first ⟨hcalled,hlen,htaken,hstats⟩
      have hpos := settled_pos b (show 0 < limit-s.context.length by omega)
      have hsettled := hcounted.settle hl hc hcalled hlen htaken hstats
      refine (ih _ ?_ _ (log++first) rfl hsettled).mono ?_
      · simp only [SpeculativeDecoding.settle,List.length_append]
        omega
      · rintro second v ⟨hv,hlimit⟩
        rw [List.append_assoc] at hv
        exact ⟨hv,hlimit⟩
    · rw [dif_neg hc]
      exact writes_pure ⟨(List.append_nil log).symm ▸ hcounted,Nat.le_of_not_lt hc⟩

end Programs

/-- Whatever the models answer and the draws give: when a run returns, it has
generated as many tokens as were asked for; its counters are the calls it made to
either model; there were as many proposals as calls of the draft, the accepted ones
are among them, and there were at least as many as target calls and at most
`lookahead` times as many; and with one token for each target call beside the
accepted ones at most one was clipped. Over models that answer every history from a
table the run is, but for its log, the one of the decoder over these tables. -/
theorem generate_counts (decoder : Decoder ω Token Row)
    (sampling : Sampling (EStateM PyError ω) P Row Token) (generation : GenerationConfig)
    (prompt : List Token) (w : ω) :
    (∀ tokens stats s, decoder.generate sampling generation prompt (w,[])=
        .ok (tokens,stats) s →
      tokens.length=generation.maxNewTokens ∧ stats.generated=tokens.length ∧
        calls .target s.2=stats.targetCalls ∧ calls .draft s.2=stats.draftCalls ∧
        stats.proposed=stats.draftCalls ∧ stats.accepted ≤ stats.proposed ∧
        stats.targetCalls ≤ stats.proposed ∧
        stats.proposed ≤ decoder.lookahead*stats.targetCalls ∧
        stats.generated ≤ stats.accepted+stats.targetCalls ∧
        stats.accepted+stats.targetCalls ≤ stats.generated+1) ∧
    ∀ row, decoder.models.Tabulated row →
      forget (decoder.generate sampling generation prompt (w,[]))=
        SpeculativeDecoder.generate ⟨historyModel (row .target),historyModel (row .draft),
          decoder.lookahead,decoder.lookahead_pos⟩ sampling generation () () prompt w := by
  refine ⟨?_,fun row hm => generate_shadows decoder hm sampling generation prompt (w,[])⟩
  intro tokens stats s hr
  have hstart : Counted prompt.length decoder.lookahead
      (prompt.length+generation.maxNewTokens) (.start prompt () ()) ([] : List (Request Token)) :=
    ⟨called_nil,rfl,Nat.le_refl 0,⟨Nat.le_refl 0,Nat.le_refl 0⟩,⟨rfl,Nat.le_add_right _ _⟩,
      Nat.le_refl 0,Nat.zero_le _,fun _ => rfl⟩
  have hwrites : Writes (decoder.generate sampling generation prompt)
      (fun added out => ∃ v, Counted prompt.length decoder.lookahead
        (prompt.length+generation.maxNewTokens) v added ∧
        prompt.length+generation.maxNewTokens ≤ v.context.length ∧
        out=(v.context.drop prompt.length,v.stats)) := by
    refine (writes_decodeLoop sampling generation _ decoder.lookahead_pos _ _ [] rfl hstart).bind ?_
    rintro v first ⟨hv,hlimit⟩
    refine writes_pure ⟨v,?_,hlimit,rfl⟩
    rw [List.append_nil]
    exact hv
  obtain ⟨v,hv,hlimit,hout⟩ := hwrites.run hr
  obtain ⟨rfl,rfl⟩ := Prod.mk.inj hout
  obtain ⟨hcontext,hle⟩ := hv.generated
  have hlength : (v.context.drop prompt.length).length=generation.maxNewTokens := by
    rw [List.length_drop]
    omega
  refine ⟨hlength,?_,hv.called.2,hv.called.1,hv.proposed,hv.accepted,hv.checked.1,hv.checked.2,
    hv.yielded.1,hv.yielded.2.1⟩
  omega

/-- Both models always answer with the token one. -/
def constantModels : Models Unit (Fin 2) (Fin 2) where
  answer _ _ inputIds := pure (inputIds.map fun _ => 1)

/-- A row is its own most likely token; nothing is drawn. -/
def certainWorld : Sampling (EStateM PyError Unit) ℚ (Fin 2) (Fin 2) where
  argmax row := row
  distribution row _ := pointMass row
  multinomial _ := throw (.runtimeError "no draw at temperature zero")
  randBelow _ := throw (.runtimeError "no draw at temperature zero")

/-- The calls of one block: the prompt and the first proposal to the draft, the prompt
and both proposals to the target. -/
def constantLog : List (Request (Fin 2)) :=
  [.call .draft [] [0] [0] [],.call .draft [0] [1] [0] [1],.call .target [] [0,1,1] [0] [1,1]]

/-- What the block hands to the loop. -/
def constantBlock : Block Unit (List (Fin 2)) Unit (List (Fin 2)) (Fin 2) :=
  ⟨[1,1],2,1,some [0,1,1],(),2,some [0,1],(),⟨0,2,0,0,0⟩⟩

/-- Two tokens from one target call, which accepted both proposals; the token behind
them was clipped. -/
theorem constant_counts : ∃ tokens stats s,
    Decoder.generate ⟨constantModels,4,by decide⟩ certainWorld
      {maxNewTokens := 2, temperature := 0} [0] ((),[])=.ok (tokens,stats) s ∧
    stats.targetCalls=1 ∧ stats.accepted=2 ∧ stats.generated=2 ∧
    calls .target s.2=stats.targetCalls ∧ calls .draft s.2=stats.draftCalls := by
  have hblock : SpeculativeRequests.decodeBlock constantModels certainWorld
      {maxNewTokens := 2, temperature := 0} true 2 (.start [0] () ()) ((),[])=
        .ok constantBlock ((),constantLog) := rfl
  have hloop : SpeculativeRequests.decodeLoop constantModels 4 certainWorld
      {maxNewTokens := 2, temperature := 0} true 3 (.start [0] () ()) ((),[])=
        .ok (settle (.start [0] () ()) 2 2 constantBlock) ((),constantLog) := by
    rw [SpeculativeRequests.decodeLoop,dif_pos (by decide)]
    refine (bind_ok hblock _).trans ?_
    rw [SpeculativeRequests.decodeLoop,dif_neg (by decide)]
    rfl
  have hrun : Decoder.generate ⟨constantModels,4,by decide⟩ certainWorld
      {maxNewTokens := 2, temperature := 0} [0] ((),[])=
        .ok ([1,1],⟨1,2,2,2,2⟩) ((),constantLog) := bind_ok hloop _
  have h := (generate_counts ⟨constantModels,4,by decide⟩ certainWorld
    {maxNewTokens := 2, temperature := 0} [0] ()).1 _ _ _ hrun
  exact ⟨_,_,_,hrun,rfl,rfl,rfl,h.2.2.1,h.2.2.2.1⟩

end CudaForge.SpeculativeCounters
