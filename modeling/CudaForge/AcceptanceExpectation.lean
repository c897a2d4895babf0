import CudaForge.SpeculativeSampling

/-!
# How many tokens a verification is expected to give

`expected_tokens_per_call` in exact arithmetic, and `_verify` with ideal
draws. A verification stops at the first rejection and gives one token more
than it keeps, so over proposals that are each kept with one probability the
expected number of tokens is a geometric sum: the closed form.
-/

namespace CudaForge.AcceptanceExpectation

open scoped ENNReal
open Finset PythonBuiltins GenerationSettings SpeculativeDecoding RejectionSampling RandomPrograms
open SpeculativeSampling

/-- `expected_tokens_per_call`. -/
def expectedTokensPerCall (acceptance : ℚ) (lookahead : ℤ) : Except PyError ℚ :=
  if ¬(0≤acceptance ∧ acceptance≤1) then
    .error (.valueError s!"acceptance must be a probability, got {acceptance}")
  else if lookahead<1 then
    .error (.valueError s!"lookahead must be at least 1, got {lookahead}")
  else if 1≤acceptance then .ok (lookahead+1)
  else .ok ((1-acceptance^(lookahead+1).toNat)/(1-acceptance))

/-- The powers of an acceptance probability up to the lookahead. -/
def powers (a : ℚ) (k : ℕ) : ℚ := ∑ i ∈ range (k+1),a^i

variable {a b : ℚ} {k l : ℕ}

/-- One proposal more. -/
theorem powers_succ (a : ℚ) (k : ℕ) : powers a (k+1)=1+a*powers a k := by
  have hfirst := sum_range_succ' (fun i => a^i) (k+1)
  rw [powers,hfirst,powers,mul_sum,add_comm,pow_zero]
  refine congrArg (1+·) (sum_congr rfl fun i _ => ?_)
  exact pow_succ' a i

theorem powers_nonneg (h0 : 0≤a) (k : ℕ) : 0≤powers a k :=
  sum_nonneg fun i _ => pow_nonneg h0 i

/-- The closed form is the sum of the powers, the singular case included. -/
theorem expected_eq (h0 : 0≤a) (h1 : a≤1) (hk : 1≤k) :
    expectedTokensPerCall a k=.ok (powers a k) := by
  have hlook : ¬(k : ℤ)<1 := by omega
  have hpow : ((k : ℤ)+1).toNat=k+1 := by omega
  rw [expectedTokensPerCall,if_neg (not_not.mpr ⟨h0,h1⟩),if_neg hlook,hpow]
  rcases h1.eq_or_lt with rfl | hlt
  · rw [if_pos le_rfl,powers]
    simp only [one_pow,sum_const,card_range,nsmul_eq_mul,mul_one]
    push_cast
    rfl
  · rw [if_neg (not_le.mpr hlt)]
    refine congrArg Except.ok ?_
    rw [div_eq_iff (sub_ne_zero.mpr hlt.ne'),powers,geom_sum_mul_neg]

/-- With some chance of acceptance a longer lookahead gives more. -/
theorem powers_strictMono (h0 : 0<a) : StrictMono (powers a) := by
  refine strictMono_nat_of_lt_succ fun k => ?_
  rw [powers,powers,sum_range_succ _ (k+1)]
  exact lt_add_of_pos_right _ (pow_pos h0 _)

/-- A greater chance of acceptance gives no less. -/
theorem powers_le_powers (h0 : 0≤a) (hab : a≤b) (k : ℕ) : powers a k≤powers b k :=
  sum_le_sum fun i _ => pow_le_pow_left₀ h0 hab i

/-- No more than one token for each proposal and one besides. -/
theorem powers_le (h0 : 0≤a) (h1 : a≤1) (k : ℕ) : powers a k≤k+1 := by
  have h := powers_le_powers h0 h1 k
  have hone : powers 1 k=k+1 := by
    rw [powers]
    simp only [one_pow,sum_const,card_range,nsmul_eq_mul,mul_one]
    push_cast
    rfl
  rwa [hone] at h

variable {Row Token : Type}

/-- A proposal, the target's row at its place and the draft distribution it
was drawn from. -/
structure Proposal (Row Token : Type) where
  /-- The token proposed. -/
  token : Token
  /-- The target's logits there. -/
  row : Row
  /-- Where it was drawn from. -/
  draft : PMF Token
  drawn : token∈draft.support

/-- What a verification gives: the kept proposals and one token besides. One
that raises counts as boundless. -/
noncomputable def emitted : Except PyError (ℕ×Token) → ℝ≥0∞
  | .ok verdict => verdict.1+1
  | .error _ => ⊤

/-- An outcome with one kept proposal more. -/
theorem emitted_map (r : Except PyError (ℕ×Token)) :
    emitted (r.map fun verdict => (verdict.1+1,verdict.2))=emitted r+1 := by
  cases r with
  | ok verdict =>
    change ((verdict.1+1 : ℕ) : ℝ≥0∞)+1=(verdict.1 : ℝ≥0∞)+1+1
    rw [Nat.cast_succ]
  | error e => exact (top_add 1).symm

/-- A coin with two outcomes. -/
theorem mean_coin {r : ℝ} (h0 : 0≤r) (h1 : r≤1) (g : Bool → ℝ≥0∞) :
    mean (coin r) g=ENNReal.ofReal r*g true+ENNReal.ofReal (1-r)*g false := by
  have hc : ∀ shown, coin r shown=ENNReal.ofReal (cond shown r (1-r)) := by
    intro shown
    rw [←coin_toReal h0 h1,ENNReal.ofReal_toReal ((coin r).apply_ne_top shown)]
  rw [mean,tsum_fintype,Fintype.sum_bool,hc,hc]
  rfl

variable [Fintype Token] [DecidableEq Token]
variable (argmax : Row → Token) (distribution : Row → GenerationConfig → PMF Token)
variable (generation : GenerationConfig)

/-- `_verify` on some proposals, with the trailing row. -/
noncomputable def verified (proposals : List (Proposal Row Token)) (bonus : Row) :
    Random PyError (ℕ×Token) :=
  verify (idealSampling argmax distribution) generation false (proposals.map Proposal.token)
    (proposals.map Proposal.row++[bonus])
    (proposals.map (fun proposal x => (proposal.draft x).toReal))

/-- How likely a proposal is kept. -/
noncomputable def chance (proposal : Proposal Row Token) : ℝ :=
  acceptance (distribution proposal.row generation) proposal.draft proposal.token

variable {argmax : Row → Token} {distribution : Row → GenerationConfig → PMF Token}
variable {generation : GenerationConfig}

omit [Fintype Token] [DecidableEq Token] in
/-- A verification that kept one proposal goes on with the others. -/
theorem expect_kept (x : Random PyError (ℕ×Token)) :
    expectation (x >>= fun later => pure (later.1+1,later.2)) emitted=expectation x emitted+1 := by
  rw [expect_bind_pure]
  have hg : (fun r : Except PyError (ℕ×Token) => emitted (r.map
      (fun verdict => (verdict.1+1,verdict.2))))=fun r => emitted r+1 := funext emitted_map
  rw [hg,expectation,mean_add,mean_const]
  rfl

omit [DecidableEq Token] in
/-- A rejection gives one token, and does not raise. -/
theorem expect_rejected {p q : PMF Token} (hpos : 0<∑ y, residual p q y) :
    expectation (resample (idealSampling argmax distribution) (fun y => (p y).toReal)
      (fun y => (q y).toReal) >>= fun token => pure (0,token)) emitted=1 := by
  obtain ⟨h0,h1,hres⟩ := resample_eq argmax distribution hpos
  rw [hres,expect_draw_bind]
  simp only [expect_pure,emitted,Nat.cast_zero,zero_add]
  exact mean_const _ 1

/-- Without proposals the trailing row gives the token. -/
theorem expect_bonus (bonus : Row) :
    expectation (verified argmax distribution generation [] bonus) emitted=1 := by
  have hv : verified argmax distribution generation [] bonus=
      draw (distribution bonus generation) >>= fun token => pure (0,token) := by
    rw [←multinomial_eq argmax distribution]
    rfl
  rw [hv,expect_draw_bind]
  simp only [expect_pure,emitted,Nat.cast_zero,zero_add]
  exact mean_const _ 1

/-- One acceptance test: the proposal is kept and the others follow, or it is
replaced. -/
theorem expect_cons {r : ℝ} {proposal : Proposal Row Token}
    {proposals : List (Proposal Row Token)} {bonus : Row}
    (hr : chance distribution generation proposal=r) :
    expectation (verified argmax distribution generation (proposal::proposals) bonus) emitted=
      ENNReal.ofReal r*(expectation (verified argmax distribution generation proposals bonus)
        emitted+1)+ENNReal.ofReal (1-r) := by
  set p := distribution proposal.row generation with hp
  set q := proposal.draft with hq
  have h0 : 0≤r := hr ▸ acceptance_nonneg p q proposal.token
  have h1 : r≤1 := hr ▸ acceptance_le p q proposal.token
  have hv : verified argmax distribution generation (proposal::proposals) bonus=
      draw (coin r) >>= fun accepted => if accepted then
        verified argmax distribution generation proposals bonus >>=
          fun later => pure (later.1+1,later.2)
      else resample (idealSampling argmax distribution) (fun y => (p y).toReal)
        (fun y => (q y).toReal) >>= fun token => pure (0,token) := by
    rw [←hr]
    rfl
  rw [hv,expect_draw_bind,mean_coin h0 h1]
  simp only [if_true,Bool.false_eq_true,if_false,expect_kept]
  refine congrArg (ENNReal.ofReal r*(expectation
    (verified argmax distribution generation proposals bonus) emitted+1)+·) ?_
  rcases h1.eq_or_lt with rfl | hlt
  · rw [sub_self,ENNReal.ofReal_zero,zero_mul]
  · have hdrawn : 0<(q proposal.token).toReal :=
      ENNReal.toReal_pos proposal.drawn (q.apply_ne_top _)
    rw [expect_rejected (residual_pos hdrawn (hr.trans_lt hlt)),mul_one]

/-- Over proposals that are each kept with one probability a verification is
expected to give the sum of its powers: by induction on the proposals, one
acceptance test at a time. -/
theorem expect_verified (h0 : 0≤a) (h1 : a≤1) {bonus : Row}
    {proposals : List (Proposal Row Token)}
    (h : ∀ proposal∈proposals, chance distribution generation proposal=a) :
    expectation (verified argmax distribution generation proposals bonus) emitted=
      ENNReal.ofReal (powers a proposals.length) := by
  have hr0 : (0 : ℝ)≤a := Rat.cast_nonneg.mpr h0
  induction proposals with
  | nil =>
    rw [expect_bonus,List.length_nil,powers,zero_add,sum_range_one,pow_zero,Rat.cast_one,
      ENNReal.ofReal_one]
  | cons proposal proposals ih =>
    have hnext := ih fun other ho => h other (List.mem_cons_of_mem _ ho)
    have hS : (0 : ℝ)≤powers a proposals.length := Rat.cast_nonneg.mpr (powers_nonneg h0 _)
    have hr1 : (0 : ℝ)≤1-a := sub_nonneg.mpr (by exact_mod_cast h1)
    rw [expect_cons (h proposal List.mem_cons_self),hnext,List.length_cons,powers_succ,
      ←ENNReal.ofReal_one,←ENNReal.ofReal_add hS zero_le_one,←ENNReal.ofReal_mul hr0,
      ←ENNReal.ofReal_add (mul_nonneg hr0 (add_nonneg hS zero_le_one)) hr1]
    push_cast
    refine congrArg ENNReal.ofReal ?_
    ring

/-- The value of `expected_tokens_per_call` is the sum of the powers of the
acceptance probability and what one verification of so many proposals is
expected to give; it grows with the lookahead, does not fall with the
acceptance and is at most the lookahead and one. -/
theorem expected_tokens (h0 : 0≤a) (h1 : a≤1) (hk : 1≤k) :
    ∃ value, expectedTokensPerCall a k=.ok value ∧ value=∑ i ∈ range (k+1),a^i ∧
      (∀ (Row Token : Type) [Fintype Token] [DecidableEq Token] (argmax : Row → Token)
        (distribution : Row → GenerationConfig → PMF Token) (generation : GenerationConfig)
        (proposals : List (Proposal Row Token)) (bonus : Row), proposals.length=k →
          (∀ proposal∈proposals, chance distribution generation proposal=a) →
            expectation (verified argmax distribution generation proposals bonus) emitted=
              ENNReal.ofReal value) ∧
      (0<a → ∀ l, k<l → ∃ more, expectedTokensPerCall a l=.ok more ∧ value < more) ∧
      (∀ b, a≤b → b≤1 → ∃ other, expectedTokensPerCall b k=.ok other ∧ value≤other) ∧
      value≤k+1 := by
  refine ⟨powers a k,expected_eq h0 h1 hk,rfl,?_,?_,?_,powers_le h0 h1 k⟩
  · intro Row Token _ _ argmax distribution generation proposals bonus hl hc
    rw [expect_verified h0 h1 hc,hl]
  · intro ha l hl
    exact ⟨powers a l,expected_eq h0 h1 (by omega),powers_strictMono ha hl⟩
  · intro b hab hb
    exact ⟨powers b k,expected_eq (h0.trans hab) hb hk,powers_le_powers h0 hab k⟩

/-- A token that the draft always proposes and the target gives one half. -/
noncomputable def halfProposal : Proposal Unit Bool where
  token := true
  row := ()
  draft := PMF.pure true
  drawn := (PMF.mem_support_pure_iff _ _).mpr rfl

/-- At one half two proposals are expected to give `7/4` tokens. -/
theorem expected_tokens_half : expectedTokensPerCall (1/2) 2=.ok (7/4) ∧
    expectation (verified (fun _ => true) (fun _ _ => coin (1/2)) {}
      [halfProposal,halfProposal] ()) emitted=ENNReal.ofReal ((7/4 : ℚ) : ℝ) := by
  have hmain := expected_tokens (a:=1/2) (k:=2) (by norm_num) (by norm_num) (by decide)
  obtain ⟨value,hv,hsum,hexpected,_⟩ := hmain
  have hvalue : value=7/4 := by
    rw [hsum]
    norm_num [sum_range_succ]
  have hchance : chance (fun (_ : Unit) _ => coin (1/2)) {} halfProposal=
      ((1/2 : ℚ) : ℝ) := by
    have hcoin : (coin (1/2) true).toReal=1/2 := by
      rw [coin_toReal (by norm_num) (by norm_num)]
      rfl
    rw [chance,acceptance,halfProposal,hcoin,PMF.pure_apply,if_pos rfl]
    norm_num
  subst hvalue
  refine ⟨hv,hexpected Unit Bool _ _ _ _ _ rfl ?_⟩
  intro proposal hp
  rcases List.mem_cons.mp hp with rfl | hp
  · exact hchance
  · rw [List.mem_singleton.mp hp]
    exact hchance

end CudaForge.AcceptanceExpectation
