import CudaForge.SpeculativeAlignment

/-!
# Greedy speculation is lossless

At temperature zero no draw is made, and a block keeps exactly the proposals
that the target would have chosen itself. Whatever the draft is, the output
is the target's own greedy continuation.
-/

namespace CudaForge.SpeculativeGreedy

open PythonBuiltins GenerationSettings SpeculativeDecoding SpeculativeAlignment

variable {σ γ Row Token : Type}

/-- The first `n` tokens of one-token-at-a-time greedy decoding. -/
def greedyContinuation (next : List Token → Token) : ℕ → List Token → List Token
  | 0,_ => []
  | n+1,history => next history::greedyContinuation next n (history++[next history])

theorem greedyContinuation_length (next : List Token → Token) (n : ℕ) :
    ∀ history, (greedyContinuation next n history).length=n := by
  induction n with
  | zero => intro history; rfl
  | succ n ih =>
    intro history
    rw [greedyContinuation,List.length_cons,ih]

/-- A continuation goes on where a shorter one stopped. -/
theorem greedyContinuation_add (next : List Token → Token) (m n : ℕ) :
    ∀ history, greedyContinuation next (m+n) history=
      greedyContinuation next m history++
        greedyContinuation next n (history++greedyContinuation next m history) := by
  induction m with
  | zero =>
    intro history
    rw [Nat.zero_add,greedyContinuation,List.nil_append,List.append_nil]
  | succ m ih =>
    intro history
    rw [Nat.succ_add,greedyContinuation,greedyContinuation,ih,List.cons_append,List.append_assoc,
      List.singleton_append]

/-- Clipping a continuation gives a shorter one. -/
theorem greedyContinuation_take (next : List Token → Token) {m n : ℕ} (hn : n ≤ m)
    (history : List Token) :
    (greedyContinuation next m history).take n=greedyContinuation next n history := by
  obtain ⟨k,rfl⟩ := Nat.exists_eq_add_of_le hn
  have hl := greedyContinuation_length next n history
  rw [greedyContinuation_add,List.take_append_of_le_length hl.ge,List.take_of_length_le hl.le]

variable {M : Type → Type} [Monad M] [LawfulMonad M] [MonadExceptOf PyError M]
variable {P : Type} [Field P] [LinearOrder P] [DecidableEq Token] [Fintype Token]
variable (sampling : Sampling M P Row Token) (generation : GenerationConfig)

/-- The target's next token after a history. -/
def nextToken (row : List Token → Row) (history : List Token) : Token :=
  sampling.argmax (row history)

omit [LinearOrder P] [Fintype Token] in
/-- A greedy round of proposals makes no draw and returns as many as asked
for, whatever the draft answers. -/
theorem propose_greedy (draft : Model σ γ Token Row) (span : ℕ) :
    ∀ (state : σ) (cache : Option γ) (input : List Token) (stats : SpeculativeStats),
      input≠[] → ∃ p : Proposed σ γ P Token,
        propose draft sampling generation true span state cache input stats=(pure p : M _) ∧
        p.proposals.length=span ∧ p.stats={stats with draftCalls := stats.draftCalls+span} := by
  induction span with
  | zero =>
    intro state cache input stats _
    exact ⟨_,rfl,rfl,rfl⟩
  | succ span ih =>
    intro state cache input stats hi
    have hrows : (draft.call state cache input).1.getLast?≠none := by
      intro hn
      have hl := draft.rows_length state cache input
      rw [List.getLast?_eq_none_iff.mp hn,List.length_nil] at hl
      exact hi (List.length_eq_zero_iff.mp hl.symm)
    obtain ⟨logits,hlogits⟩ := Option.ne_none_iff_exists'.mp hrows
    obtain ⟨later,hlater,hlen,hstats⟩ := ih (draft.call state cache input).2.2
      (draft.call state cache input).2.1 [sampling.argmax logits]
      {stats with draftCalls := stats.draftCalls+1} (List.cons_ne_nil _ _)
    refine ⟨{later with
      proposals := sampling.argmax logits::later.proposals
      distributions := pointMass (sampling.argmax logits)::later.distributions},?_,?_,?_⟩
    · simp only [propose,hlogits,proposeToken,if_true,pure_bind,hlater]
    · rw [List.length_cons,hlen]
    · rw [hstats]
      simp only [Nat.add_assoc,Nat.add_comm 1]

omit [LawfulMonad M] in
/-- One step of the greedy verdict, which reads no distribution. -/
theorem verify_greedy_cons (proposed : Token) (proposals : List Token) (logits : Row)
    (verdict : List Row) (distributions : List (Token → P)) :
    verify sampling generation true (proposed::proposals) (logits::verdict) distributions=
      (if sampling.argmax logits=proposed then do
        let later ← verify sampling generation true proposals verdict distributions.tail
        pure (later.1+1,later.2)
      else pure (0,sampling.argmax logits) : M (ℕ×Token)) := by
  cases distributions with
  | nil => rw [verify,if_pos rfl]
  | cons _ _ => rw [verify,if_pos rfl]

/-- The greedy verdict keeps exactly the proposals the target would have
chosen, and adds its own next choice. -/
theorem verify_greedy (row : List Token → Row) (proposals : List Token) :
    ∀ (context : List Token) (distributions : List (Token → P)), ∃ taken replacement,
      verify sampling generation true proposals (verdictRows row context proposals)
        distributions=(pure (taken,replacement) : M _) ∧
      taken≤proposals.length ∧
      proposals.take taken++[replacement]=
        greedyContinuation (nextToken sampling row) (taken+1) context := by
  induction proposals with
  | nil =>
    intro context distributions
    refine ⟨0,sampling.argmax (row context),?_,Nat.le_refl 0,rfl⟩
    simp only [verdictRows,historyRows,verify,bonusToken,if_true,pure_bind]
  | cons proposed proposals ih =>
    intro context distributions
    have hv : verdictRows row context (proposed::proposals)=
        row context::verdictRows row (context++[proposed]) proposals := rfl
    rw [hv,verify_greedy_cons]
    by_cases ha : sampling.argmax (row context)=proposed
    · obtain ⟨taken,replacement,hr,hl,he⟩ := ih (context++[proposed]) distributions.tail
      have hn : nextToken sampling row context=proposed := ha
      refine ⟨taken+1,replacement,?_,by rw [List.length_cons]; omega,?_⟩
      · rw [if_pos ha,hr,pure_bind]
      · rw [List.take_succ_cons,List.cons_append,he]
        change _=nextToken sampling row context::greedyContinuation _ (taken+1)
          (context++[nextToken sampling row context])
        rw [hn]
    · refine ⟨0,sampling.argmax (row context),?_,Nat.zero_le _,rfl⟩
      rw [if_neg ha]

/-- What one greedy block does. -/
structure GreedyBlock (next : List Token → Token) (span : ℕ)
    (s : Decoding σ γ Unit (List Token) Token) (b : Block σ γ Unit (List Token) Token) :
    Prop where
  taken_le : b.taken ≤ span
  proposals_length : b.proposals.length=span
  kept_eq : b.proposals.take b.taken++[b.replacement]=
    greedyContinuation next (b.taken+1) s.context
  cache_eq : b.targetCache=
    some ((s.context++b.proposals).take (s.context.length+b.taken))
  draft_le : b.draftIngested ≤ s.context.length+b.taken
  generated_eq : b.stats.generated=s.stats.generated
  calls_eq : b.stats.targetCalls=s.stats.targetCalls

omit [DecidableEq Token] [Fintype Token] in
/-- Rolling back the draft never raises, and leaves no more than the kept
history ingested. -/
theorem rollbackDraft_pure (draft : Model σ γ Token Row) (cache : Option γ)
    {ingested : ℕ} (covered : ℕ) {position : ℕ} (hi : ingested≤position) :
    ∃ rolled : ℕ×Option γ,
      rollbackDraft draft cache ingested covered position=(pure rolled : M _) ∧
      rolled.1≤position := by
  cases cache with
  | none => exact ⟨_,rfl,hi⟩
  | some held =>
    rw [rollbackDraft,cropCache]
    by_cases hc : min covered position<covered
    · rw [if_pos hc]
      exact ⟨_,pure_bind _ _,Nat.min_le_right _ _⟩
    · rw [if_neg hc]
      exact ⟨_,pure_bind _ _,Nat.min_le_right _ _⟩

/-- A greedy block on an aligned context. -/
theorem decodeBlock_greedy (row : List Token → Row) (draft : Model σ γ Token Row) (span : ℕ)
    {s : Decoding σ γ Unit (List Token) Token}
    (ha : Aligned s.context s.targetIngested s.targetCache)
    (hd : s.draftIngested<s.context.length) :
    ∃ b, decodeBlock (historyModel row) draft sampling generation true span s=(pure b : M _) ∧
      GreedyBlock (nextToken sampling row) span s b := by
  have hpending : s.context.drop s.draftIngested≠[] := by
    intro he
    have hl := congrArg List.length he
    rw [List.length_drop,List.length_nil] at hl
    omega
  obtain ⟨p,hp,hlen,hstats⟩ := propose_greedy sampling generation draft span s.draftState
    s.draftCache _ s.stats hpending
  obtain ⟨taken,replacement,hv,htaken,hkept⟩ :=
    verify_greedy sampling generation row p.proposals s.context p.distributions
  have hc : (s.context++p.proposals).length=s.context.length+span := by
    rw [List.length_append,hlen]
  obtain ⟨rolled,hroll,hle⟩ := rollbackDraft_pure (M:=M) draft p.cache (s.context.length+span-1)
    (show s.draftIngested ≤ s.context.length+taken by omega)
  refine ⟨⟨p.proposals,taken,replacement,some ((s.context++p.proposals).take
    (s.context.length+taken)),(),rolled.1,rolled.2,p.state,p.stats⟩,?_,?_⟩
  · rw [decodeBlock,hp,pure_bind]
    dsimp only
    rw [ha.call_verdict row _ hlen,hv,pure_bind,ha.call_eq row]
    simp only [crop_history (M:=M) row hc,pure_bind,hroll]
  · exact ⟨hlen ▸ htaken,hlen,hkept,rfl,hle,by rw [hstats],by rw [hstats]⟩

/-- What a greedy run of the loop settles in `n` tokens' time. -/
structure GreedyRun (next : List Token → Token) (lookahead n : ℕ)
    (s t : Decoding σ γ Unit (List Token) Token) : Prop where
  context_eq : t.context=s.context++greedyContinuation next n s.context
  generated_eq : t.stats.generated=s.stats.generated+n
  yields_eq : ∃ ys, t.yields=s.yields++ys ∧ (∀ y∈ys, 1≤y ∧ y≤lookahead+1) ∧ ys.length≤n ∧
    t.stats.targetCalls=s.stats.targetCalls+ys.length

omit [DecidableEq Token] [Fintype Token] in
/-- A greedy block followed by a greedy run of the rest is a greedy run. -/
theorem GreedyBlock.run {next : List Token → Token} {lookahead n : ℕ}
    {s t : Decoding σ γ Unit (List Token) Token} {b : Block σ γ Unit (List Token) Token}
    (hb : GreedyBlock next (min lookahead (n+1)) s b)
    (ht : GreedyRun next lookahead (n+1-min (b.taken+1) (n+1))
      (settle s (min lookahead (n+1)) (n+1) b) t) : GreedyRun next lookahead (n+1) s t := by
  have hm := hb.taken_le
  have hset : b.settled (n+1)=greedyContinuation next (min (b.taken+1) (n+1)) s.context := by
    rw [Block.settled,hb.kept_eq]
    rcases Nat.le_total (b.taken+1) (n+1) with hle | hle
    · rw [Nat.min_eq_left hle,List.take_of_length_le]
      rw [greedyContinuation_length]
      exact hle
    · rw [Nat.min_eq_right hle,greedyContinuation_take next hle]
  obtain ⟨ys,hys,hin,hlen,hcalls⟩ := ht.yields_eq
  constructor
  · rw [ht.context_eq]
    simp only [settle,hset]
    rw [List.append_assoc,←greedyContinuation_add]
    congr 2
    omega
  · rw [ht.generated_eq]
    simp only [settle,hset,greedyContinuation_length,hb.generated_eq]
    omega
  · refine ⟨(b.taken+1)::ys,?_,?_,?_,?_⟩
    · rw [hys]
      simp only [settle,List.append_assoc,List.singleton_append]
    · intro y hy
      rcases List.mem_cons.mp hy with rfl | hy
      · omega
      · exact hin y hy
    · rw [List.length_cons]
      omega
    · rw [hcalls]
      simp only [settle,hb.calls_eq,List.length_cons]
      omega

/-- The greedy loop, by induction on the tokens still to settle. -/
theorem decodeLoop_greedy (row : List Token → Row) (draft : Model σ γ Token Row)
    (lookahead limit : ℕ) (n : ℕ) :
    ∀ s : Decoding σ γ Unit (List Token) Token, limit-s.context.length=n →
      s.context.length≤limit →
      (s.context.length<limit → Aligned s.context s.targetIngested s.targetCache ∧
        s.draftIngested<s.context.length) →
      ∃ t, decodeLoop (historyModel row) draft lookahead sampling generation true limit s=
          (pure t : M _) ∧
        GreedyRun (nextToken sampling row) lookahead n s t := by
  induction n using Nat.strong_induction_on with
  | _ n ih =>
    intro s hn hle ha
    rw [decodeLoop]
    by_cases hl : s.context.length<limit
    · obtain ⟨m,rfl⟩ := Nat.exists_eq_succ_of_ne_zero (show n≠0 by omega)
      obtain ⟨hal,hd⟩ := ha hl
      obtain ⟨b,hb,hg⟩ := decodeBlock_greedy sampling generation row draft
        (min lookahead (m+1)) hal hd
      rw [dif_pos hl]
      simp only [hn,Nat.succ_eq_add_one,hb,pure_bind]
      have hm := hg.taken_le
      have hlen : (b.settled (m+1)).length=min (b.taken+1) (m+1) := by
        rw [Block.settled,hg.kept_eq,List.length_take,greedyContinuation_length,Nat.min_comm]
      have hnew : (settle s (min lookahead (m+1)) (m+1) b).context.length=
          s.context.length+min (b.taken+1) (m+1) := by
        rw [settle,List.length_append,hlen]
      obtain ⟨t,ht,hrun⟩ := ih (m+1-min (b.taken+1) (m+1)) (by omega)
        (settle s (min lookahead (m+1)) (m+1) b) (by omega) (by omega) (by
          intro hlt
          have htake : b.settled (m+1)=b.proposals.take b.taken++[b.replacement] := by
            rw [Block.settled,hg.kept_eq,List.take_of_length_le]
            rw [greedyContinuation_length]
            omega
          constructor
          · simp only [settle,htake,hg.cache_eq]
            exact aligned_settled b.replacement hg.proposals_length hm (Nat.le_refl _)
          · have hdr := hg.draft_le
            rw [hnew]
            simp only [settle]
            omega)
      exact ⟨t,ht,hg.run hrun⟩
    · rw [dif_neg hl]
      have hz : n=0 := by omega
      subst hz
      refine ⟨s,rfl,?_,rfl,[],?_,?_,Nat.le_refl 0,rfl⟩
      · rw [greedyContinuation,List.append_nil]
      · rw [List.append_nil]
      · intro y hy
        exact absurd hy List.not_mem_nil

/-- At temperature zero the decoder returns the target's own greedy
continuation, exactly as long as the budget, whatever the draft is; every
target call yields between one and `lookahead+1` tokens before clipping. -/
theorem generate_greedy (row : List Token → Row)
    (decoder : SpeculativeDecoder σ γ Unit (List Token) Token Row)
    (ht : decoder.target=historyModel row) (hg : generation.temperature=0) (draftState : σ)
    {prompt : List Token} (hp : prompt≠[]) :
    ∃ t : Decoding σ γ Unit (List Token) Token,
      decoder.decode sampling generation () draftState prompt=(pure t : M _) ∧
      decoder.generate sampling generation () draftState prompt=
        (pure (greedyContinuation (nextToken sampling row) generation.maxNewTokens prompt,
          t.stats) : M _) ∧
      (∀ y∈t.yields, 1≤y ∧ y≤decoder.lookahead+1) ∧
      t.yields.length=t.stats.targetCalls ∧
      t.stats.targetCalls≤generation.maxNewTokens ∧
      t.stats.generated=generation.maxNewTokens := by
  have hpos := List.length_pos_of_ne_nil hp
  have hgreedy : decide (generation.temperature≤0)=true := decide_eq_true hg.le
  obtain ⟨t,hrun,hs⟩ := decodeLoop_greedy sampling generation row decoder.draft
    decoder.lookahead (prompt.length+generation.maxNewTokens) generation.maxNewTokens
    (.start prompt () draftState) (Nat.add_sub_cancel_left _ _) (Nat.le_add_right _ _)
    (fun _ => ⟨⟨rfl,hpos⟩,hpos⟩)
  have hd : decoder.decode sampling generation () draftState prompt=(pure t : M _) := by
    rw [SpeculativeDecoder.decode,hgreedy,ht]
    exact hrun
  obtain ⟨ys,hys,hin,hlen,hcalls⟩ := hs.yields_eq
  have hyt : t.yields=ys := hys
  have hct : t.stats.targetCalls=ys.length := by
    rw [hcalls]
    exact Nat.zero_add _
  refine ⟨t,hd,?_,?_,?_,?_,?_⟩
  · rw [SpeculativeDecoder.generate,hd,pure_bind,hs.context_eq]
    simp only [Decoding.start,List.drop_left]
  · rw [hyt]
    exact hin
  · rw [hyt,hct]
  · rw [hct]
    exact hlen
  · rw [hs.generated_eq]
    exact Nat.zero_add _

/-- A token that depends on the whole history, shifted by a drift. -/
def chainToken (drift : ℕ) (history : List (Fin 31)) : Fin 31 :=
  Fin.ofNat 31 ((history.map Fin.val).sum*5+history.length*13+drift)

/-- A draft that is wrong at every third call, which its state counts. -/
def stumblingModel : Model ℕ (List (Fin 31)) (Fin 31) (Fin 31) where
  call calls cache added :=
    (historyRows (chainToken (if (calls+1)%3=0 then 1 else 0)) (cache.getD []) added,
      some (cache.getD []++added),calls+1)
  crop held excess := held.take (held.length-excess)
  rows_length _ cache added := historyRows_length _ added (cache.getD [])

/-- Rows that are their own most likely token, and no draw to make. -/
def drawless : Sampling (Except PyError) ℚ (Fin 31) (Fin 31) where
  argmax row := row
  distribution row _ := pointMass row
  multinomial _ := .error (.runtimeError "no draw at temperature zero")
  randBelow _ := .error (.runtimeError "no draw at temperature zero")

/-- A history-dependent target decoded behind a stumbling draft. -/
theorem chain_decoded : ∃ stats : SpeculativeStats,
    SpeculativeDecoder.generate ⟨historyModel (chainToken 0),stumblingModel,4,by decide⟩
      drawless {maxNewTokens := 6, temperature := 0} () 0 [3,1,4,1,5]=
        .ok ([11,17,22,21,15,10],stats) ∧ stats.generated=6 ∧ stats.targetCalls≤6 := by
  obtain ⟨t,_,hg,_,_,hc,hn⟩ := generate_greedy drawless {maxNewTokens := 6, temperature := 0}
    (chainToken 0) ⟨historyModel (chainToken 0),stumblingModel,4,by decide⟩ rfl rfl 0
    (List.cons_ne_nil (3 : Fin 31) [1,4,1,5])
  exact ⟨t.stats,hg,hn,hc⟩

end CudaForge.SpeculativeGreedy
