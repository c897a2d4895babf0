import Mathlib.Tactic

/-!
# The online softmax recurrence

A weighted average whose weights are the softmax of a row of scores can be
computed in one pass: a running maximum, and a sum and an accumulator that
are rescaled whenever the maximum grows. Over any ordered field, with any
positive function that turns sums into products in place of the exponential.
-/

namespace CudaForge.OnlineSoftmax

open Finset

variable {K : Type} [Field K]

/-- All that is used of the exponential. -/
structure Exponential [LinearOrder K] (exp : K → K) : Prop where
  positive : ∀ a, 0 < exp a
  add : ∀ a b, exp (a+b)=exp a*exp b

/-- The softmax of the first `count` scores. -/
def softmax (exp : K → K) (scores : ℕ → K) (count index : ℕ) : K :=
  exp (scores index)/∑ i ∈ range count,exp (scores i)

/-- The average of the first `count` values with these weights; zero when
there are none. -/
def average (exp : K → K) (scores values : ℕ → K) (count : ℕ) : K :=
  ∑ i ∈ range count,softmax exp scores count i*values i

/-- No scores, no average. -/
theorem average_zero (exp : K → K) (scores values : ℕ → K) : average exp scores values 0=0 := rfl

/-- The average reads the scores and values it counts, and no others. -/
theorem average_congr {exp : K → K} {scores scores' values values' : ℕ → K} {count : ℕ}
    (h : ∀ i < count, scores i=scores' i ∧ values i=values' i) :
    average exp scores values count=average exp scores' values' count := by
  have hw : ∑ i ∈ range count,exp (scores i)=∑ i ∈ range count,exp (scores' i) :=
    sum_congr rfl (fun i hi => by rw [(h i (mem_range.mp hi)).1])
  refine sum_congr rfl (fun i hi => ?_)
  obtain ⟨h1,h2⟩ := h i (mem_range.mp hi)
  rw [softmax,softmax,h1,h2,hw]

/-- What is carried from one score to the next. -/
structure Running (K : Type) where
  /-- The largest score so far. -/
  maximum : K
  /-- The sum of the weights so far, relative to the maximum. -/
  sum : K
  /-- The weighted sum of the values so far, relative to the maximum. -/
  accumulator : K

variable [LinearOrder K]

/-- One score and its value; `lowest` stands for no score yet. -/
def Running.absorb (exp : K → K) (lowest score value : K) (r : Running K) : Running K :=
  let updated := max r.maximum score
  let correction := if r.maximum=lowest then 0 else exp (r.maximum-updated)
  let weight := exp (score-updated)
  ⟨updated,r.sum*correction+weight,r.accumulator*correction+weight*value⟩

/-- The first `count` scores, one after another. -/
def absorbAll (exp : K → K) (lowest : K) (scores values : ℕ → K) : ℕ → Running K
  | 0 => ⟨lowest,0,0⟩
  | count+1 => (absorbAll exp lowest scores values count).absorb exp lowest (scores count)
      (values count)

variable {exp : K → K} {lowest : K} {scores values : ℕ → K} {count : ℕ}

/-- The factors of two rescalings multiply. -/
theorem Exponential.chain (h : Exponential exp) (a b c : K) :
    exp (a-b)*exp (b-c)=exp (a-c) := by
  rw [←h.add,sub_add_sub_cancel]

/-- Nothing is rescaled by one. -/
theorem Exponential.self (h : Exponential exp) (a : K) : exp (a-a)=1 :=
  mul_left_cancel₀ (h.positive (a-a)).ne' ((h.chain a a a).trans (mul_one _).symm)

/-- A sum relative to one maximum, rescaled to another. -/
theorem rescale (h : Exponential exp) (scores : ℕ → K) (old new : K) (factors : ℕ → K)
    (count : ℕ) :
    (∑ i ∈ range count,exp (scores i-old)*factors i)*exp (old-new)=
      ∑ i ∈ range count,exp (scores i-new)*factors i := by
  rw [sum_mul]
  refine sum_congr rfl (fun i _ => ?_)
  have he : scores i-new=(scores i-old)+(old-new) := by ring
  rw [he,h.add]
  ring

/-- Once a score was absorbed the maximum is above the start value. -/
theorem lowest_lt_maximum (hs : ∀ i < count, lowest < scores i) (hc : 0 < count) :
    lowest < (absorbAll exp lowest scores values count).maximum := by
  cases count with
  | zero => exact absurd hc (Nat.lt_irrefl 0)
  | succ n => exact lt_max_of_lt_right (hs n (Nat.lt_succ_self n))

/-- What the sum and the accumulator are after every prefix of the scores. -/
theorem absorbAll_spec (h : Exponential exp) (values : ℕ → K)
    (hs : ∀ i < count, lowest < scores i) :
    (absorbAll exp lowest scores values count).sum=∑ i ∈ range count,
        exp (scores i-(absorbAll exp lowest scores values count).maximum) ∧
      (absorbAll exp lowest scores values count).accumulator=∑ i ∈ range count,
        exp (scores i-(absorbAll exp lowest scores values count).maximum)*values i := by
  induction count with
  | zero => exact ⟨rfl,rfl⟩
  | succ n ih =>
    have hn : ∀ i < n, lowest < scores i := fun i hi => hs i (Nat.lt_succ_of_lt hi)
    obtain ⟨hsum,hacc⟩ := ih hn
    simp only [absorbAll,Running.absorb]
    generalize hr : absorbAll exp lowest scores values n=r at hsum hacc
    rw [sum_range_succ,sum_range_succ]
    -- the first score meets an empty sum, which no correction changes
    rcases Nat.eq_zero_or_pos n with rfl | hp
    · rw [hsum,hacc]
      simp only [range_zero,sum_empty,zero_mul,and_self]
    · have hm : r.maximum≠lowest := by
        rw [←hr]
        exact (lowest_lt_maximum hn hp).ne'
      have h1 := rescale h scores r.maximum (max r.maximum (scores n)) (fun _ => 1) n
      have h2 := rescale h scores r.maximum (max r.maximum (scores n)) values n
      simp only [mul_one] at h1
      rw [if_neg hm,hsum,hacc,h1,h2]
      exact ⟨rfl,rfl⟩

/-- A softmax may be taken relative to any value. -/
theorem softmax_shift (h : Exponential exp) (scores : ℕ → K) (m : K) (count index : ℕ) :
    exp (scores index-m)*(1/∑ i ∈ range count,exp (scores i-m))=
      softmax exp scores count index := by
  have hm : exp m≠0 := (h.positive m).ne'
  have hw : ∀ i, exp (scores i)=exp (scores i-m)*exp m := by
    intro i
    rw [←h.add,sub_add_cancel]
  rw [softmax,sum_congr rfl (fun i _ => hw i),hw index,←sum_mul,mul_div_mul_right _ _ hm,
    mul_one_div]

/-- The recurrence computes the average of the values with softmax weights. -/
theorem absorbAll_average (h : Exponential exp) (hs : ∀ i < count, lowest < scores i) :
    (absorbAll exp lowest scores values count).accumulator/
      (absorbAll exp lowest scores values count).sum=average exp scores values count := by
  obtain ⟨hsum,hacc⟩ := absorbAll_spec h values hs
  rw [hsum,hacc]
  generalize (absorbAll exp lowest scores values count).maximum=m
  have hw : ∀ factors : ℕ → K, ∑ i ∈ range count,exp (scores i)*factors i=
      exp m*∑ i ∈ range count,exp (scores i-m)*factors i := by
    intro factors
    have hr := rescale h scores m 0 factors count
    simp only [sub_zero] at hr
    rw [←hr,mul_comm]
  have h1 := hw (fun _ => 1)
  simp only [mul_one] at h1
  have hm : exp m≠0 := (h.positive m).ne'
  have ha : average exp scores values count=
      (∑ i ∈ range count,exp (scores i)*values i)/∑ i ∈ range count,exp (scores i) := by
    rw [average,sum_div]
    refine sum_congr rfl (fun i _ => ?_)
    rw [softmax]
    ring
  rw [ha,h1,hw values,mul_div_mul_left _ _ hm]

end CudaForge.OnlineSoftmax
