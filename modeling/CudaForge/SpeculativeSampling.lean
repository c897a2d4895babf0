import CudaForge.RandomPrograms
import CudaForge.SpeculativeAlignment

/-!
# Speculative sampling is lossless in distribution

With ideal draws a block of proposals, kept or replaced by the acceptance
test, goes on exactly as drawing the next tokens from the target would. The
loop therefore returns the budget's number of tokens with the distribution of
sampling them one at a time from the target.
-/

namespace CudaForge.SpeculativeSampling

open PythonBuiltins GenerationSettings SpeculativeDecoding SpeculativeAlignment
open RejectionSampling RandomPrograms

variable {Row Token β : Type} [Fintype Token] [DecidableEq Token]

open Classical in
/-- Ideal draws over real numbers. Weights that cannot be normalised make the
draw raise, as torch does. -/
noncomputable def idealSampling (argmax : Row → Token)
    (distribution : Row → GenerationConfig → PMF Token) :
    Sampling (Random PyError) ℝ Row Token where
  argmax := argmax
  distribution row generation x := (distribution row generation x).toReal
  multinomial w :=
    if h : (∀ x, 0≤w x) ∧ 0<∑ x, w x then draw (ofWeights w h.1 h.2)
    else throw (.runtimeError "invalid multinomial distribution (sum of probabilities <= 0)")
  randBelow r := draw (coin r)

/-- Sampling so many tokens one at a time. -/
noncomputable def sampleTokens (p : List Token → PMF Token) : ℕ → List Token → PMF (List Token)
  | 0,_ => PMF.pure []
  | n+1,history => (p history).bind (fun token =>
      (sampleTokens p n (history++[token])).bind (fun later => PMF.pure (token::later)))

omit [Fintype Token] [DecidableEq Token] in
/-- As many tokens as asked for are sampled. -/
theorem sampleTokens_length (p : List Token → PMF Token) (n : ℕ) :
    ∀ history, ∀ ts∈(sampleTokens p n history).support, ts.length=n := by
  induction n with
  | zero =>
    intro history ts ht
    rw [sampleTokens,PMF.mem_support_pure_iff] at ht
    rw [ht,List.length_nil]
  | succ n ih =>
    intro history ts ht
    rw [sampleTokens,PMF.mem_support_bind_iff] at ht
    obtain ⟨token,_,ht⟩ := ht
    rw [PMF.mem_support_bind_iff] at ht
    obtain ⟨later,hl,ht⟩ := ht
    rw [PMF.mem_support_pure_iff] at ht
    rw [ht,List.length_cons,ih _ later hl]

omit [Fintype Token] [DecidableEq Token] in
/-- The first token and what follows it, as programs. -/
theorem draw_sampleTokens_succ (p : List Token → PMF Token) (n : ℕ) (history : List Token)
    (K : List Token → Random PyError β) :
    draw (sampleTokens p (n+1) history) >>= K=
      draw (p history) >>= fun token => draw (sampleTokens p n (history++[token])) >>=
        fun later => K (token::later) := by
  rw [sampleTokens,draw_bind,bind_assoc]
  congr 1
  funext token
  rw [draw_bind,bind_assoc]
  congr 1
  funext later
  rw [draw_pure,pure_bind]

variable (argmax : Row → Token) (distribution : Row → GenerationConfig → PMF Token)
variable (generation : GenerationConfig)

omit [DecidableEq Token] in
/-- Drawing with the probabilities of a distribution draws from it. -/
theorem multinomial_eq (μ : PMF Token) :
    (idealSampling argmax distribution).multinomial (fun x => (μ x).toReal)=draw μ := by
  have h : (∀ x, 0≤(μ x).toReal) ∧ 0<∑ x, (μ x).toReal := by
    refine ⟨fun x => ENNReal.toReal_nonneg,?_⟩
    rw [sum_toReal]
    exact zero_lt_one
  simp only [idealSampling]
  rw [dif_pos h,ofWeights_self]

omit [DecidableEq Token] in
/-- Where some mass is left over the replacement is drawn from it, and the
assertion does not fail. -/
theorem resample_eq {p q : PMF Token} (hpos : 0<∑ y, residual p q y) :
    ∃ (h0 : ∀ x, 0≤residual p q x/∑ y, residual p q y)
      (h1 : 0<∑ x, residual p q x/∑ y, residual p q y),
      resample (idealSampling argmax distribution) (fun y => (p y).toReal)
        (fun y => (q y).toReal)=draw (ofWeights _ h0 h1) := by
  have hw : (∀ x, 0≤residual p q x/∑ y, residual p q y) ∧
      0<∑ x, residual p q x/∑ y, residual p q y := by
    refine ⟨fun x => div_nonneg (residual_nonneg p q x) hpos.le,?_⟩
    rw [←Finset.sum_div,div_self hpos.ne']
    exact zero_lt_one
  refine ⟨hw.1,hw.2,?_⟩
  unfold resample
  rw [if_pos (show 0<∑ x, max ((p x).toReal-(q x).toReal) 0 from hpos)]
  simp only [idealSampling]
  exact dif_pos hw

omit [DecidableEq Token] in
/-- One acceptance test with its replacement draw goes on as a draw from the
target would; the assertion in it does not fail. -/
theorem accept_step (p q : PMF Token) (F : Token → Random PyError β) :
    (draw q >>= fun x => accepts (idealSampling argmax distribution) (fun y => (p y).toReal)
        (fun y => (q y).toReal) x >>= fun accepted =>
      if accepted then F x
      else resample (idealSampling argmax distribution) (fun y => (p y).toReal)
        (fun y => (q y).toReal) >>= F)=draw p >>= F := by
  apply ext_run
  have hrun : ∀ x, (accepts (idealSampling argmax distribution) (fun y => (p y).toReal)
        (fun y => (q y).toReal) x >>= fun accepted =>
      if accepted then F x
      else resample (idealSampling argmax distribution) (fun y => (p y).toReal)
        (fun y => (q y).toReal) >>= F).run=
      (coin (acceptance p q x)).bind (fun b => if b then (F x).run
        else (resample (idealSampling argmax distribution) (fun y => (p y).toReal)
          (fun y => (q y).toReal) >>= F).run) := by
    intro x
    have ha : accepts (idealSampling argmax distribution) (fun y => (p y).toReal)
        (fun y => (q y).toReal) x=draw (coin (acceptance p q x)) := rfl
    rw [ha,run_draw_bind]
    congr 1
  rw [run_draw_bind,run_draw_bind]
  simp only [hrun]
  apply accept_or_resample
  intro hpos y
  obtain ⟨h0,h1,hres⟩ := resample_eq argmax distribution hpos
  rw [hres,run_draw_bind,bind_toReal,Finset.mul_sum]
  apply Finset.sum_congr rfl
  intro x _
  rw [ofWeights_toReal,←Finset.sum_div,div_self hpos.ne',div_one,←mul_assoc,
    mul_div_cancel₀ _ hpos.ne']

/-- The next-token distribution of a model's row. -/
noncomputable def conditional (row : List Token → Row) (history : List Token) : PMF Token :=
  distribution (row history) generation

/-- The draft distributions recorded along the proposals. -/
noncomputable def recorded (q : List Token → PMF Token) :
    List Token → List Token → List (Token → ℝ)
  | _,[] => []
  | history,token::later => (fun x => (q history x).toReal)::recorded q (history++[token]) later

/-- The draft's cache once the proposals were made: the last one is never fed
back. -/
def cacheAfter (cache : Option (List Token)) (context : List Token) :
    List Token → Option (List Token)
  | [] => cache
  | token::later => some (context++(token::later).dropLast)

/-- A round of proposals of a history draft samples them one at a time. -/
theorem propose_history (row : List Token → Row) (span : ℕ) :
    ∀ (cache : Option (List Token)) (input : List Token) (stats : SpeculativeStats), input≠[] →
      propose (historyModel row) (idealSampling argmax distribution) generation false span ()
        cache input stats=
      draw (sampleTokens (conditional distribution generation row) span (cache.getD []++input))
        >>= fun ps => pure ⟨ps,recorded (conditional distribution generation row)
          (cache.getD []++input) ps,cacheAfter cache (cache.getD []++input) ps,(),
          {stats with draftCalls := stats.draftCalls+span}⟩ := by
  induction span with
  | zero =>
    intro cache input stats _
    rw [sampleTokens,draw_pure,pure_bind]
    rfl
  | succ span ih =>
    intro cache input stats hi
    have hlast : ((historyModel row).call () cache input).1.getLast?=
        some (row (cache.getD []++input)) := historyRows_getLast row hi
    have hcall : ((historyModel row).call () cache input).2=(some (cache.getD []++input),()) :=
      rfl
    have hmul : (idealSampling argmax distribution).multinomial
        ((idealSampling argmax distribution).distribution (row (cache.getD []++input)) generation)=
        draw (conditional distribution generation row (cache.getD []++input)) :=
      multinomial_eq argmax distribution _
    rw [draw_sampleTokens_succ]
    simp only [propose,hlast,hcall,proposeToken,Bool.false_eq_true,if_false,hmul,bind_assoc,
      pure_bind]
    congr 1
    funext token
    rw [ih (some (cache.getD []++input)) [token] _ (List.cons_ne_nil _ _),bind_assoc]
    simp only [Option.getD_some,pure_bind]
    congr 1
    funext later
    have hafter : cacheAfter (some (cache.getD []++input)) (cache.getD []++input++[token]) later=
        cacheAfter cache (cache.getD []++input) (token::later) := by
      cases later with
      | nil => rw [cacheAfter,cacheAfter,List.dropLast_singleton,List.append_nil]
      | cons next later =>
        rw [cacheAfter,cacheAfter,List.dropLast_cons_cons,List.append_assoc,List.singleton_append]
    rw [hafter,recorded]
    simp only [Nat.add_assoc,Nat.add_comm 1]
    rfl

/-- The verdict on proposals, from the models' distributions. -/
noncomputable def judged (target draft : List Token → Row) (context proposals : List Token) :
    Random PyError (ℕ×Token) :=
  verify (idealSampling argmax distribution) generation false proposals
    (verdictRows target context proposals)
    (recorded (conditional distribution generation draft) context proposals)

/-- No more proposals are kept than were made. -/
theorem judged_le (target draft : List Token → Row) (proposals : List Token) :
    ∀ context v, Returns (judged argmax distribution generation target draft context proposals) v →
      v.1≤proposals.length := by
  induction proposals with
  | nil =>
    intro context v hv
    simp only [judged,verdictRows,historyRows,verify,returns_bind,returns_pure] at hv
    obtain ⟨token,_,rfl⟩ := hv
    exact Nat.le_refl 0
  | cons proposed proposals ih =>
    intro context v hv
    simp only [judged,verdictRows,historyRows,recorded,verify,Bool.false_eq_true,if_false,
      returns_bind] at hv
    obtain ⟨accepted,_,hv⟩ := hv
    cases accepted with
    | true =>
      simp only [if_true,returns_bind,returns_pure] at hv
      obtain ⟨later,hl,rfl⟩ := hv
      have hle := ih (context++[proposed]) later hl
      rw [List.length_cons]
      omega
    | false =>
      simp only [Bool.false_eq_true,if_false,returns_bind,returns_pure] at hv
      obtain ⟨token,_,rfl⟩ := hv
      exact Nat.zero_le _

/-- The tokens of a block before clipping. -/
noncomputable def blockTokens (target draft : List Token → Row) (span : ℕ)
    (context : List Token) : Random PyError (List Token) :=
  draw (sampleTokens (conditional distribution generation draft) span context) >>= fun ps =>
    judged argmax distribution generation target draft context ps >>= fun v =>
      pure (ps.take v.1++[v.2])

/-- A block without proposals is a draw from the target. -/
theorem blockTokens_zero (target draft : List Token → Row) (context : List Token) :
    blockTokens argmax distribution generation target draft 0 context=
      draw (conditional distribution generation target context) >>= fun x => pure [x] := by
  have hmul : (idealSampling argmax distribution).multinomial
      ((idealSampling argmax distribution).distribution (target context) generation)=
      draw (conditional distribution generation target context) :=
    multinomial_eq argmax distribution _
  rw [blockTokens,sampleTokens,draw_pure,pure_bind]
  simp only [judged,verdictRows,historyRows,verify,bonusToken,Bool.false_eq_true,if_false,hmul,
    bind_assoc,pure_bind]
  rfl

/-- A block tests its first proposal before the others matter. -/
theorem blockTokens_succ (target draft : List Token → Row) (span : ℕ) (context : List Token)
    (K : List Token → Random PyError β) :
    blockTokens argmax distribution generation target draft (span+1) context >>= K=
      draw (conditional distribution generation draft context) >>= fun x =>
        accepts (idealSampling argmax distribution)
          (fun y => (conditional distribution generation target context y).toReal)
          (fun y => (conditional distribution generation draft context y).toReal) x >>=
        fun accepted =>
          if accepted then
            blockTokens argmax distribution generation target draft span (context++[x]) >>=
              fun ts => K (x::ts)
          else resample (idealSampling argmax distribution)
            (fun y => (conditional distribution generation target context y).toReal)
            (fun y => (conditional distribution generation draft context y).toReal) >>=
              fun x => K [x] := by
  rw [blockTokens,draw_sampleTokens_succ,bind_assoc]
  congr 1
  funext x
  have hj : ∀ later, judged argmax distribution generation target draft context (x::later)=
      accepts (idealSampling argmax distribution)
          (fun y => (conditional distribution generation target context y).toReal)
          (fun y => (conditional distribution generation draft context y).toReal) x >>=
        fun accepted =>
          if accepted then
            judged argmax distribution generation target draft (context++[x]) later >>=
              fun v => pure (v.1+1,v.2)
          else resample (idealSampling argmax distribution)
            (fun y => (conditional distribution generation target context y).toReal)
            (fun y => (conditional distribution generation draft context y).toReal) >>=
              fun y => pure (0,y) := by
    intro later
    simp only [judged,verdictRows,historyRows,recorded,verify,Bool.false_eq_true,if_false]
    rfl
  -- the acceptance draw is moved before the draws of the later proposals
  have ha : accepts (idealSampling argmax distribution)
      (fun y => (conditional distribution generation target context y).toReal)
      (fun y => (conditional distribution generation draft context y).toReal) x=
      draw (coin (acceptance (conditional distribution generation target context)
        (conditional distribution generation draft context) x)) := rfl
  simp only [hj,bind_assoc,ha]
  rw [draw_comm]
  congr 1
  funext accepted
  cases accepted with
  | true =>
    simp only [if_true,blockTokens,bind_assoc,pure_bind,List.take_succ_cons,List.cons_append]
  | false =>
    simp only [Bool.false_eq_true,if_false,bind_assoc,pure_bind,List.take_zero,List.nil_append]
    exact draw_const _ _

/-- A block, clipped to `n` tokens and completed from the target, is `n`
tokens from the target: by induction on the proposals, one acceptance test at
a time. -/
theorem blockTokens_lossless (target draft : List Token → Row) (span : ℕ) :
    ∀ (n : ℕ) (context : List Token) (K : List Token → Random PyError β), span≤n →
      (blockTokens argmax distribution generation target draft span context >>= fun ts =>
        draw (sampleTokens (conditional distribution generation target)
          (n-(ts.take n).length) (context++ts.take n)) >>= fun more => K (ts.take n++more))=
      draw (sampleTokens (conditional distribution generation target) n context) >>= K := by
  induction span with
  | zero =>
    intro n context K _
    rw [blockTokens_zero,bind_assoc]
    simp only [pure_bind]
    cases n with
    | zero =>
      simp only [List.take_zero,List.append_nil,List.length_nil,List.nil_append]
      exact draw_const _ _
    | succ n =>
      simp only [List.take_succ_cons,List.take_nil,List.length_singleton,Nat.add_sub_cancel,
        List.singleton_append]
      exact (draw_sampleTokens_succ _ _ _ _).symm
  | succ span ih =>
    intro n context K hn
    obtain ⟨m,rfl⟩ := Nat.exists_eq_succ_of_ne_zero (show n≠0 by omega)
    have hstep := accept_step argmax distribution
      (conditional distribution generation target context)
      (conditional distribution generation draft context) (fun x =>
        draw (sampleTokens (conditional distribution generation target) m (context++[x])) >>=
          fun more => K (x::more))
    rw [blockTokens_succ,draw_sampleTokens_succ,←hstep]
    congr 1
    funext x
    congr 1
    funext accepted
    cases accepted with
    | true =>
      have hi := ih m (context++[x]) (fun more => K (x::more)) (by omega)
      simp only [if_true,List.take_succ_cons,List.length_cons,Nat.succ_eq_add_one,
        Nat.add_sub_add_right,List.cons_append]
      simpa only [List.append_assoc,List.singleton_append] using hi
    | false =>
      simp only [Bool.false_eq_true,if_false,List.take_succ_cons,List.take_nil,
        List.length_singleton,Nat.succ_eq_add_one,Nat.add_sub_cancel,List.singleton_append]

/-- The block that proposals and a verdict determine. -/
def blockOf (s : Decoding Unit (List Token) Unit (List Token) Token) (span : ℕ)
    (ps : List Token) (v : ℕ×Token) : Block Unit (List Token) Unit (List Token) Token :=
  let ingested := min (s.context.length+span-1) (s.context.length+v.1)
  ⟨ps,v.1,v.2,some ((s.context++ps).take (s.context.length+v.1)),(),ingested,
    some ((s.context++ps).take ingested),(),
    {s.stats with draftCalls := s.stats.draftCalls+span}⟩

/-- A block on aligned caches: sample the proposals, judge them, and keep
the caches aligned. -/
theorem decodeBlock_history (target draft : List Token → Row) {span : ℕ} (hspan : 0<span)
    {s : Decoding Unit (List Token) Unit (List Token) Token}
    (ht : Aligned s.context s.targetIngested s.targetCache)
    (hd : Aligned s.context s.draftIngested s.draftCache) :
    decodeBlock (historyModel target) (historyModel draft) (idealSampling argmax distribution)
      generation false span s=
      draw (sampleTokens (conditional distribution generation draft) span s.context) >>= fun ps =>
        judged argmax distribution generation target draft s.context ps >>= fun v =>
          pure (blockOf s span ps v) := by
  have hp : propose (historyModel draft) (idealSampling argmax distribution) generation false span
      s.draftState s.draftCache (s.context.drop s.draftIngested) s.stats=_ :=
    propose_history argmax distribution generation draft span s.draftCache _ s.stats hd.pending_ne
  rw [hd.held_eq,List.take_append_drop] at hp
  rw [decodeBlock,hp,bind_assoc]
  apply bind_congr_returns
  intro ps hps
  have hlen := sampleTokens_length _ _ _ ps (returns_draw.mp hps)
  rw [pure_bind]
  dsimp only
  rw [ht.call_verdict target _ hlen,ht.call_eq target]
  apply bind_congr_returns
  intro v hv
  have hle := judged_le argmax distribution generation target draft ps s.context v hv
  have hc : (s.context++ps).length=s.context.length+span := by rw [List.length_append,hlen]
  have hafter : cacheAfter s.draftCache s.context ps=
      some ((s.context++ps).take (s.context.length+span-1)) := by
    cases ps with
    | nil => exact absurd hlen (by rw [List.length_nil]; omega)
    | cons token later =>
      rw [cacheAfter,List.dropLast_eq_take,hlen,Nat.add_sub_assoc hspan,
        List.take_length_add_append]
  have hcd : ((s.context++ps).take (s.context.length+span-1)).length=
      s.context.length+span-1 := by
    rw [List.length_take,hc]
    omega
  have hmin : min (min (s.context.length+span-1) (s.context.length+v.1))
      (s.context.length+span-1)=min (s.context.length+span-1) (s.context.length+v.1) :=
    Nat.min_eq_left (Nat.min_le_left _ _)
  simp only [hafter,rollbackDraft,crop_history (M:=Random PyError) target hc,
    crop_history (M:=Random PyError) draft hcd,pure_bind,List.take_take,hmin,blockOf]

/-- The loop settles what the target alone would have been sampled to say, by
induction on the tokens still to settle. -/
theorem decodeLoop_history (target draft : List Token → Row) {lookahead : ℕ}
    (hlook : 1≤lookahead) (limit : ℕ) (n : ℕ) :
    ∀ (s : Decoding Unit (List Token) Unit (List Token) Token)
      (K : List Token → Random PyError β), limit-s.context.length=n → s.context.length≤limit →
      (s.context.length<limit → Aligned s.context s.targetIngested s.targetCache ∧
        Aligned s.context s.draftIngested s.draftCache) →
      (decodeLoop (historyModel target) (historyModel draft) lookahead
        (idealSampling argmax distribution) generation false limit s >>= fun t => K t.context)=
      draw (sampleTokens (conditional distribution generation target) n s.context) >>= fun ts =>
        K (s.context++ts) := by
  induction n using Nat.strong_induction_on with
  | _ n ih =>
    intro s K hn hle ha
    rw [decodeLoop]
    by_cases hl : s.context.length<limit
    · obtain ⟨ht,hd⟩ := ha hl
      have hspan : 0 < min lookahead n := by omega
      have hloss := blockTokens_lossless argmax distribution generation target draft
        (min lookahead n) n s.context (fun ts => K (s.context++ts)) (Nat.min_le_right _ _)
      rw [dif_pos hl,←hloss]
      simp only [hn]
      rw [decodeBlock_history argmax distribution generation target draft hspan ht hd,blockTokens]
      simp only [bind_assoc,pure_bind]
      apply bind_congr_returns
      intro ps hps
      have hlen := sampleTokens_length _ _ _ ps (returns_draw.mp hps)
      apply bind_congr_returns
      intro v hv
      have hv' := judged_le argmax distribution generation target draft ps s.context v hv
      have hset : (blockOf s (min lookahead n) ps v).settled n=(ps.take v.1++[v.2]).take n := rfl
      have hpos := settled_pos (blockOf s (min lookahead n) ps v) (show 0<n by omega)
      have hmin : ((ps.take v.1++[v.2]).take n).length≤n := by
        rw [List.length_take]
        omega
      rw [hset] at hpos
      have hnew : (settle s (min lookahead n) n (blockOf s (min lookahead n) ps v)).context=
          s.context++(ps.take v.1++[v.2]).take n := rfl
      rw [ih (n-((ps.take v.1++[v.2]).take n).length) (by omega) _ K
        (by rw [hnew,List.length_append]; omega) (by rw [hnew,List.length_append]; omega)
        (by
          intro hlt
          rw [hnew,List.length_append,List.length_take] at hlt
          have hall : (ps.take v.1++[v.2]).take n=ps.take v.1++[v.2] :=
            List.take_of_length_le (by omega)
          rw [hnew,hall]
          exact ⟨aligned_settled v.2 hlen (by omega) (Nat.le_refl _),
            aligned_settled v.2 hlen (by omega) (Nat.min_le_right _ _)⟩),hnew]
      simp only [List.append_assoc]
    · have hz : n=0 := by omega
      subst hz
      rw [dif_neg hl,sampleTokens,draw_pure,pure_bind,pure_bind,List.append_nil]

/-- Without a token in the prompt there is no row to draw the first proposal
from, and the decoder raises before any draw. -/
theorem generate_empty (target draft : List Token → Row) (lookahead limit : ℕ)
    (hlook : 1≤lookahead) (hlimit : 0<limit) :
    decodeLoop (historyModel target) (historyModel draft) lookahead
      (idealSampling argmax distribution) generation false limit (.start [] () ())=
      throw listIndexError := by
  have hlt : (Decoding.start ([] : List Token) () () :
      Decoding Unit (List Token) Unit (List Token) Token).context.length<limit := hlimit
  obtain ⟨span,hs⟩ := Nat.exists_eq_succ_of_ne_zero (show min lookahead limit≠0 by omega)
  have hb : decodeBlock (historyModel target) (historyModel draft)
      (idealSampling argmax distribution) generation false (span+1) (.start [] () ())=
      throw listIndexError := throw_bind _ _
  rw [decodeLoop,dif_pos hlt]
  simp only [Decoding.start,List.length_nil,Nat.sub_zero,hs,Nat.succ_eq_add_one]
  rw [←Decoding.start,hb,throw_bind]

/-- The decoder's output is distributed as sampling the budget's number of
tokens one at a time from the target, and it never raises; wherever a draw of
the draft may be rejected, there is mass to draw its replacement from. -/
theorem generate_sampling (target draft : List Token → Row) {lookahead : ℕ}
    (hlook : 1≤lookahead) (ht : 0<generation.temperature) (prompt : List Token) :
    (prompt≠[] →
      (do
        let result ← SpeculativeDecoder.generate ⟨historyModel target,historyModel draft,lookahead,
          hlook⟩ (idealSampling argmax distribution) generation () () prompt
        pure result.1 : Random PyError (List Token)).run=
      (sampleTokens (conditional distribution generation target) generation.maxNewTokens
        prompt).map Except.ok) ∧
    (prompt=[] → SpeculativeDecoder.generate ⟨historyModel target,historyModel draft,lookahead,
      hlook⟩ (idealSampling argmax distribution) generation () () prompt=throw listIndexError) ∧
    (∀ history proposed, proposed∈(conditional distribution generation draft history).support →
      false∈(coin (acceptance (conditional distribution generation target history)
        (conditional distribution generation draft history) proposed)).support →
      0<∑ x, residual (conditional distribution generation target history)
        (conditional distribution generation draft history) x) := by
  have hgreedy : decide (generation.temperature≤0)=false := decide_eq_false (not_le.mpr ht)
  refine ⟨?_,?_,?_⟩
  · intro hp
    have hpos := List.length_pos_of_ne_nil hp
    have hloop := decodeLoop_history argmax distribution generation target draft hlook
      (prompt.length+generation.maxNewTokens) generation.maxNewTokens (.start prompt () ())
      (fun context => (pure (context.drop prompt.length) : Random PyError _))
      (Nat.add_sub_cancel_left _ _) (Nat.le_add_right _ _)
      (fun _ => ⟨⟨rfl,hpos⟩,⟨rfl,hpos⟩⟩)
    simp only [Decoding.start,List.drop_left] at hloop
    simp only [SpeculativeDecoder.generate,SpeculativeDecoder.decode,hgreedy,bind_assoc,pure_bind,
      Decoding.start,hloop]
    rw [run_draw_bind]
    rfl
  · intro hp
    subst hp
    rw [SpeculativeDecoder.generate,SpeculativeDecoder.decode,hgreedy,
      generate_empty argmax distribution generation target draft lookahead _ hlook
        (Nat.add_pos_right _ generation.maxNewTokens_pos),throw_bind]
  · intro history proposed hq hr
    have hq' := ENNReal.toReal_pos (PMF.mem_support_iff _ _ |>.mp hq) (PMF.apply_ne_top _ _)
    have hr' := ENNReal.toReal_pos (PMF.mem_support_iff _ _ |>.mp hr) (PMF.apply_ne_top _ _)
    rw [coin_toReal (acceptance_nonneg _ _ _) (acceptance_le _ _ _),cond_false] at hr'
    exact residual_pos hq' (sub_pos.mp hr')

/-- A fair coin reproduced behind a draft that always says `true`. -/
theorem fair_coin_reproduced :
    (do
      let result ← SpeculativeDecoder.generate ⟨historyModel (fun _ => coin (1/2)),
        historyModel (fun _ => PMF.pure true),4,by decide⟩
        (idealSampling (fun _ => true) (fun row _ => row)) {maxNewTokens := 3} () () [true]
      pure result.1 : Random PyError (List Bool)).run=
    (sampleTokens (fun _ => coin (1/2)) 3 [true]).map Except.ok :=
  (generate_sampling (fun _ => true) (fun row _ => row) {maxNewTokens := 3}
    (fun _ => coin (1/2)) (fun _ => PMF.pure true) (by decide) (by decide)
    [true]).1 (List.cons_ne_nil _ _)

/-- Without a prompt the same decoder raises and returns no tokens at all. -/
theorem empty_prompt_raises :
    (do
      let result ← SpeculativeDecoder.generate ⟨historyModel (fun _ => coin (1/2)),
        historyModel (fun _ => PMF.pure true),4,by decide⟩
        (idealSampling (fun _ => true) (fun row _ => row)) {maxNewTokens := 3} () () []
      pure result.1 : Random PyError (List Bool)).run=PMF.pure (Except.error listIndexError) ∧
    PMF.pure (Except.error listIndexError)≠
      (sampleTokens (fun _ => coin (1/2)) 3 []).map Except.ok := by
  refine ⟨?_,fun h => ?_⟩
  · have hgreedy : decide (({maxNewTokens := 3} : GenerationConfig).temperature≤0)=false := by
      decide
    rw [SpeculativeDecoder.generate,SpeculativeDecoder.decode,hgreedy,
      generate_empty (fun _ => true) (fun row _ => row) _ _ _ 4 _ (by decide)
        (Nat.add_pos_right _ (GenerationConfig.maxNewTokens_pos _)),throw_bind,throw_bind]
    rfl
  · have hm : Except.error listIndexError∈
        ((sampleTokens (fun _ => coin (1/2)) 3 []).map Except.ok).support := by
      rw [←h]
      exact (PMF.mem_support_pure_iff _ _).mpr rfl
    obtain ⟨_,_,ho⟩ := (PMF.mem_support_map_iff _ _ _).mp hm
    exact absurd ho nofun

end CudaForge.SpeculativeSampling
