import Mathlib.Probability.ProbabilityMassFunction.Constructions

/-!
# Rejection sampling over a finite type

To draw from `p` with draws from `q`: keep a draw `x` with probability
`min (p x/q x) 1`, and otherwise draw again from the normalised positive part
of `p-q`. The two cases compose to exactly `p`. Probabilities are read as
real numbers.
-/

namespace CudaForge.RejectionSampling

variable {α β : Type}

/-- Distributions with equal real probabilities are equal. -/
theorem ext_toReal {μ ν : PMF α} (h : ∀ x, (μ x).toReal=(ν x).toReal) : μ=ν := by
  apply PMF.ext
  intro x
  exact (ENNReal.toReal_eq_toReal_iff' (μ.apply_ne_top x) (ν.apply_ne_top x)).mp (h x)

variable [Fintype α]

/-- The probabilities add up to one. -/
theorem sum_toReal (μ : PMF α) : ∑ x, (μ x).toReal=1 := by
  have ht := μ.tsum_coe
  rw [tsum_fintype] at ht
  rw [←ENNReal.toReal_sum (fun x _ => μ.apply_ne_top x),ht,ENNReal.toReal_one]

/-- A draw followed by a draw that depends on it. -/
theorem bind_toReal (μ : PMF α) (f : α → PMF β) (y : β) :
    (μ.bind f y).toReal=∑ x, (μ x).toReal*(f x y).toReal := by
  rw [PMF.bind_apply,tsum_fintype,ENNReal.toReal_sum (fun x _ =>
    ENNReal.mul_ne_top (μ.apply_ne_top x) ((f x).apply_ne_top y))]
  simp only [ENNReal.toReal_mul]

/-- The distribution proportional to weights that are not all zero. -/
noncomputable def ofWeights (w : α → ℝ) (hw : ∀ x, 0≤w x) (hs : 0<∑ x, w x) : PMF α :=
  PMF.normalize (fun x => ENNReal.ofReal (w x))
    (by
      rw [tsum_fintype,←ENNReal.ofReal_sum_of_nonneg (fun x _ => hw x)]
      exact (ENNReal.ofReal_pos.mpr hs).ne')
    (by
      rw [tsum_fintype,←ENNReal.ofReal_sum_of_nonneg (fun x _ => hw x)]
      exact ENNReal.ofReal_ne_top)

theorem ofWeights_toReal {w : α → ℝ} (hw : ∀ x, 0≤w x) (hs : 0<∑ x, w x) (x : α) :
    (ofWeights w hw hs x).toReal=w x/∑ y, w y := by
  rw [ofWeights,PMF.normalize_apply,tsum_fintype,←ENNReal.ofReal_sum_of_nonneg (fun x _ => hw x),
    ENNReal.toReal_mul,ENNReal.toReal_inv,ENNReal.toReal_ofReal (hw x),
    ENNReal.toReal_ofReal hs.le,div_eq_mul_inv]

/-- Weights that already are a distribution. -/
theorem ofWeights_self (μ : PMF α) (hw : ∀ x, 0≤(μ x).toReal) (hs : 0<∑ x, (μ x).toReal) :
    ofWeights (fun x => (μ x).toReal) hw hs=μ := by
  apply ext_toReal
  intro x
  rw [ofWeights_toReal,sum_toReal,div_one]

/-- A coin that shows `true` with the given probability, cut to `[0,1]`. -/
noncomputable def coin (r : ℝ) : PMF Bool :=
  ofWeights (fun b => cond b (max 0 (min r 1)) (1-max 0 (min r 1)))
    (by
      intro b
      have hl := le_max_left 0 (min r 1)
      have hu := max_le (zero_le_one' ℝ) (min_le_right r 1)
      cases b with
      | true => exact hl
      | false => exact sub_nonneg.mpr hu)
    (by
      rw [Fintype.sum_bool]
      simp only [cond_true,cond_false,add_sub_cancel,zero_lt_one])

theorem coin_toReal {r : ℝ} (h0 : 0≤r) (h1 : r≤1) (b : Bool) :
    (coin r b).toReal=cond b r (1-r) := by
  rw [coin,ofWeights_toReal,Fintype.sum_bool]
  simp only [cond_true,cond_false,add_sub_cancel,div_one,min_eq_left h1,max_eq_right h0]

/-- How likely a draw `x` from `q` is kept. -/
noncomputable def acceptance (p q : PMF α) (x : α) : ℝ := min ((p x).toReal/(q x).toReal) 1

/-- What `p` gives to `x` beyond `q`. -/
noncomputable def residual (p q : PMF α) (x : α) : ℝ := max ((p x).toReal-(q x).toReal) 0

omit [Fintype α] in
theorem residual_nonneg (p q : PMF α) (x : α) : 0≤residual p q x := le_max_right _ _

omit [Fintype α] in
theorem acceptance_nonneg (p q : PMF α) (x : α) : 0≤acceptance p q x :=
  le_min (div_nonneg ENNReal.toReal_nonneg ENNReal.toReal_nonneg) zero_le_one

omit [Fintype α] in
theorem acceptance_le (p q : PMF α) (x : α) : acceptance p q x≤1 := min_le_right _ _

omit [Fintype α] in
/-- A value is drawn and kept with the smaller of its two probabilities. -/
theorem mul_acceptance (p q : PMF α) (x : α) :
    (q x).toReal*acceptance p q x=min (p x).toReal (q x).toReal := by
  have hp : 0≤(p x).toReal := ENNReal.toReal_nonneg
  rcases (ENNReal.toReal_nonneg (a:=q x)).eq_or_lt with hq | hq
  · rw [←hq,zero_mul,min_eq_right hp]
  · rw [acceptance,mul_min_of_nonneg _ _ hq.le,mul_one,mul_div_cancel₀ _ hq.ne']

omit [Fintype α] in
/-- What is kept and what is left over make up `p`. -/
theorem min_add_residual (p q : PMF α) (x : α) :
    min (p x).toReal (q x).toReal+residual p q x=(p x).toReal := by
  rw [residual]
  rcases le_total (p x).toReal (q x).toReal with h | h
  · rw [min_eq_left h,max_eq_right (sub_nonpos.mpr h),add_zero]
  · rw [min_eq_right h,max_eq_left (sub_nonneg.mpr h),add_sub_cancel]

/-- A draw is rejected as often as there is mass left over. -/
theorem sum_rejected (p q : PMF α) :
    ∑ x, (q x).toReal*(1-acceptance p q x)=∑ x, residual p q x := by
  have hm : ∀ x, (q x).toReal*(1-acceptance p q x)=
      (q x).toReal-(p x).toReal+residual p q x := by
    intro x
    have ha := mul_acceptance p q x
    have hr := min_add_residual p q x
    linear_combination -ha-hr
  simp only [hm]
  rw [Finset.sum_add_distrib,Finset.sum_sub_distrib,sum_toReal,sum_toReal,sub_self,zero_add]

/-- A draw that may be rejected leaves some mass over. -/
theorem residual_pos {p q : PMF α} {x : α} (hq : 0<(q x).toReal) (ha : acceptance p q x<1) :
    0<∑ y, residual p q y := by
  rw [←sum_rejected]
  have hpos : 0<(q x).toReal*(1-acceptance p q x) := mul_pos hq (sub_pos.mpr ha)
  refine hpos.trans_le (Finset.single_le_sum (f:=fun y => (q y).toReal*(1-acceptance p q y))
    ?_ (Finset.mem_univ x))
  intro y _
  exact mul_nonneg ENNReal.toReal_nonneg (sub_nonneg.mpr (acceptance_le p q y))

/-- Rejection sampling: a draw from `q` that is kept or replaced goes on as a
draw from `p` would. The replacement only matters when mass is left over. -/
theorem accept_or_resample (p q : PMF α) (f : α → PMF β) (rest : PMF β)
    (hrest : 0<∑ x, residual p q x → ∀ y, (∑ x, residual p q x)*(rest y).toReal=
      ∑ x, residual p q x*(f x y).toReal) :
    q.bind (fun x => (coin (acceptance p q x)).bind (fun b => if b then f x else rest))=
      p.bind f := by
  apply ext_toReal
  intro y
  have hcoin : ∀ x, ((coin (acceptance p q x)).bind (fun b => if b then f x else rest) y).toReal=
      acceptance p q x*(f x y).toReal+(1-acceptance p q x)*(rest y).toReal := by
    intro x
    rw [bind_toReal,Fintype.sum_bool,coin_toReal (acceptance_nonneg p q x) (acceptance_le p q x),
      coin_toReal (acceptance_nonneg p q x) (acceptance_le p q x)]
    simp only [cond_true,cond_false,if_true,Bool.false_eq_true,if_false]
  have hleft : (∑ x, residual p q x)*(rest y).toReal=∑ x, residual p q x*(f x y).toReal := by
    rcases (Finset.sum_nonneg (fun x (_ : x∈Finset.univ) => residual_nonneg p q x)).eq_or_lt with
      hz | hpos
    · -- no mass is left over, value by value
      have hzero := (Finset.sum_eq_zero_iff_of_nonneg
        (fun x (_ : x∈Finset.univ) => residual_nonneg p q x)).mp hz.symm
      rw [←hz,zero_mul,Finset.sum_eq_zero]
      intro x hx
      rw [hzero x hx,zero_mul]
    · exact hrest hpos y
  calc (q.bind (fun x => (coin (acceptance p q x)).bind
        (fun b => if b then f x else rest)) y).toReal
      =∑ x, (q x).toReal*(acceptance p q x*(f x y).toReal+
          (1-acceptance p q x)*(rest y).toReal) := by
        rw [bind_toReal]
        simp only [hcoin]
    _=∑ x, ((q x).toReal*acceptance p q x*(f x y).toReal)+
        (∑ x, (q x).toReal*(1-acceptance p q x))*(rest y).toReal := by
        rw [Finset.sum_mul,←Finset.sum_add_distrib]
        apply Finset.sum_congr rfl
        intro x _
        ring
    _=∑ x, (min (p x).toReal (q x).toReal*(f x y).toReal+residual p q x*(f x y).toReal) := by
        rw [sum_rejected,hleft,←Finset.sum_add_distrib]
        simp only [mul_acceptance]
    _=∑ x, (p x).toReal*(f x y).toReal := by
        apply Finset.sum_congr rfl
        intro x _
        rw [←add_mul,min_add_residual]
    _=(p.bind f y).toReal := (bind_toReal p f y).symm

end CudaForge.RejectionSampling
