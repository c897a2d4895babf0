import CudaForge.BinaryFloats
import CudaForge.BisectedLists
import CudaForge.PythonBuiltins

/-!
# The latency histogram of the Python runtime

`LatencyHistogram` keeps the most recent samples twice: sorted, and in the
order of their arrival. Samples are values of any linear order that can be read
as floats. Both lists describe one window, whatever is recorded and however
often a value repeats. Sums, quotients and the product behind an index are
those of floats, so the mean is exact where nothing is rounded.
-/

namespace CudaForge.LatencyWindow

open BinaryFloats PythonBuiltins BisectedLists

/-- The histogram. -/
structure LatencyHistogram (K : Type) where
  /-- How many samples the window holds. -/
  capacity : ℤ
  /-- The samples in order of size. -/
  samples : List K := []
  /-- The samples in order of arrival. -/
  order : List K := []
  /-- How many samples there ever were. -/
  count : ℕ := 0
  /-- Their sum. -/
  total : FloatNumber binary64 := 0
  deriving DecidableEq

/-- The samples without an evicted one, where the search for it succeeds. -/
def evicted {K : Type} [LinearOrder K] (samples : List K) (oldest : K) : List K :=
  let index := bisectLeft samples oldest
  if samples[index]?=some oldest then samples.eraseIdx index else samples

/-- `min(max(quantile, 0.0), 1.0)`. -/
def clamp (quantile : FloatNumber binary64) : FloatNumber binary64 :=
  let raised := if quantile<0 then 0 else quantile
  if 1<raised then 1 else raised

/-- The index of a quantile in a window of some size. -/
def quantileIndex (quantile : FloatNumber binary64) (size : ℕ) : Except PyError ℕ :=
  match clamp quantile with
  | .finite clamped => .ok ⌊binary64.nearest (clamped*binary64.nearest (size-1 : ℕ))⌋₊
  | _ => .error (.valueError "cannot convert float NaN to integer")

namespace LatencyHistogram

variable {K : Type} [LinearOrder K]

/-- `__init__`. -/
def create {K : Type} (capacity : ℤ) : Except PyError (LatencyHistogram K) :=
  if capacity≤0 then
    .error (.valueError s!"capacity must be positive, got {capacity}")
  else .ok {capacity := capacity}

/-- `record`. -/
def record (h : LatencyHistogram K) (number : K → FloatNumber binary64) (value : K) :
    Except PyError (LatencyHistogram K) :=
  let h := {h with count := h.count+1, total := h.total+number value}
  if h.capacity≤h.samples.length then
    match h.order with
    | [] => .error (.indexError "pop from an empty deque")
    | oldest :: order =>
      .ok {h with
        samples := insort (evicted h.samples oldest) value
        order := order++[value]}
  else .ok {h with samples := insort h.samples value, order := h.order++[value]}

/-- `percentile`. -/
def percentile {K : Type} [Zero K] (h : LatencyHistogram K) (quantile : FloatNumber binary64) :
    Except PyError K :=
  if h.samples=[] then .ok 0
  else do
    let index ← quantileIndex quantile h.samples.length
    match h.samples[index]? with
    | some value => .ok value
    | none => .error listIndexError

/-- `mean`. -/
def mean {K : Type} (h : LatencyHistogram K) : FloatNumber binary64 :=
  if h.count=0 then 0 else h.total/FloatNumber.round binary64 h.count

/-- `maximum`. -/
def maximum {K : Type} [Zero K] (h : LatencyHistogram K) : K := h.samples.getLast?.getD 0

/-- `minimum`. -/
def minimum {K : Type} [Zero K] (h : LatencyHistogram K) : K := h.samples.head?.getD 0

/-- `reset`. -/
def reset {K : Type} (h : LatencyHistogram K) : LatencyHistogram K :=
  {h with samples := [], order := [], count := 0, total := 0}

/-- A new histogram after some samples. -/
def recorded (number : K → FloatNumber binary64) (capacity : ℤ) (values : List K) :
    Except PyError (LatencyHistogram K) := do
  values.foldlM (fun h value => h.record number value) (← create capacity)

end LatencyHistogram

open LatencyHistogram

/-- The last values of a history, as many as the window holds. -/
def recent {K : Type} (capacity : ℕ) (values : List K) : List K :=
  values.rtake (min values.length capacity)

section Windows

variable {K : Type} {capacity : ℕ} {values : List K}

/-- The window is full once the history is as long. -/
theorem recent_length : (recent capacity values).length=min values.length capacity := by
  rw [recent,List.rtake,List.length_drop]
  omega

/-- While the window has room, the whole history is in it. -/
theorem recent_room (h : values.length<capacity) (value : K) :
    recent capacity (values++[value])=recent capacity values++[value] := by
  have hl : (values++[value]).length=values.length+1 := List.length_append
  rw [recent,recent,hl,Nat.min_eq_left (Nat.succ_le_of_lt h),Nat.min_eq_left h.le,
    List.rtake_concat_succ]

/-- A full window drops its oldest value for the new one. -/
theorem recent_full (hpos : 0<capacity) (h : capacity≤values.length) (value : K) :
    ∃ oldest rest, recent capacity values=oldest :: rest ∧
      recent capacity (values++[value])=rest++[value] := by
  obtain ⟨c,rfl⟩ := Nat.exists_eq_add_of_lt hpos
  rw [Nat.zero_add] at h ⊢
  have hl : (values++[value]).length=values.length+1 := List.length_append
  have hlt : values.length-(c+1)<values.length := by omega
  refine ⟨values[values.length-(c+1)],values.rtake c,?_,?_⟩
  · rw [recent,Nat.min_eq_right h,List.rtake,List.drop_eq_getElem_cons hlt,List.rtake]
    congr 2
    omega
  · rw [recent,hl,Nat.min_eq_right (by omega),List.rtake_concat_succ]

end Windows

section Quantiles

/-- A number is clamped to the nearest one from zero to one. -/
theorem clamp_number (x : ℚ) : clamp (.finite x)=.finite (min (max x 0) 1) := by
  have hzero : (FloatNumber.finite x : FloatNumber binary64)<0 ↔ x<0 := FloatNumber.finite_lt
  have hone : 1<(FloatNumber.finite x : FloatNumber binary64) ↔ 1<x := FloatNumber.finite_lt
  simp only [clamp]
  by_cases hneg : x<0
  · rw [if_pos (hzero.mpr hneg),max_eq_right hneg.le,min_eq_left zero_le_one]
    decide
  · rw [if_neg (fun h => hneg (hzero.mp h)),max_eq_left (not_lt.mp hneg)]
    by_cases hlarge : 1<x
    · rw [if_pos (hone.mpr hlarge),min_eq_right hlarge.le]
      rfl
    · rw [if_neg (fun h => hlarge (hone.mp h)),min_eq_left (not_lt.mp hlarge)]

/-- Every quantile but what is no number is clamped to one from zero to one. -/
theorem clamp_finite {quantile : FloatNumber binary64} (hq : quantile≠.nan) :
    ∃ clamped, clamp quantile=.finite clamped ∧ clamped≤1 := by
  cases quantile with
  | nan => exact absurd rfl hq
  | negInf => exact ⟨0,by decide,zero_le_one⟩
  | posInf => exact ⟨1,by decide,le_rfl⟩
  | finite x => exact ⟨_,clamp_number x,min_le_right _ _⟩

/-- Clamping keeps the order. -/
theorem clamp_mono {quantile other : FloatNumber binary64} {x y : ℚ} (h : quantile≤other)
    (hx : clamp quantile=.finite x) (hy : clamp other=.finite y) : x≤y := by
  have hlow : clamp .negInf=.finite 0 := by decide
  have hhigh : clamp .posInf=.finite 1 := by decide
  have hbad : clamp .nan=.nan := by decide
  have hbounds : ∀ z : ℚ, 0 ≤ min (max z 0) 1 ∧ min (max z 0) 1≤1 := fun z =>
    ⟨le_min (le_max_right _ _) zero_le_one,min_le_right _ _⟩
  cases quantile <;> cases other <;>
    simp only [hlow,hhigh,hbad,clamp_number,reduceCtorEq,FloatNumber.finite.injEq] at hx hy <;>
    subst hx hy
  case negInf.negInf => exact le_rfl
  case negInf.posInf => exact zero_le_one
  case negInf.finite z => exact (hbounds z).1
  case posInf.posInf => exact le_rfl
  case finite.posInf z => exact (hbounds z).2
  case finite.finite z w =>
    exact min_le_min_right 1 (max_le_max_right 0 (FloatNumber.finite_le.mp h))
  all_goals exact absurd h Bool.false_ne_true

/-- The sizes of windows up to here are floats. -/
theorem nearest_size {size : ℕ} (h : size≤2^53) : binary64.nearest size=size := by
  have hexact := nearest_exact binary64 (n:=size) (e:=0) (by
    rw [Nat.abs_cast]
    exact_mod_cast h) (by decide)
  rwa [zpow_zero,mul_one,Int.cast_natCast] at hexact

/-- The index of a quantile lies in the window. -/
theorem index_lt {size : ℕ} {clamped : ℚ} (hpos : 0<size) (hsize : size≤2^53) (hle : clamped≤1) :
    ⌊binary64.nearest (clamped*(size-1 : ℕ))⌋₊<size := by
  have hprod : clamped*(size-1 : ℕ)≤(size-1 : ℕ) := mul_le_of_le_one_left (Nat.cast_nonneg _) hle
  have hnear := nearest_mono binary64 hprod
  rw [nearest_size ((Nat.sub_le _ _).trans hsize)] at hnear
  have hfloor := Nat.floor_le_of_le hnear
  omega

/-- The index of a quantile. -/
theorem quantileIndex_eq {quantile : FloatNumber binary64} {clamped : ℚ} {size : ℕ}
    (hsize : size≤2^53) (hc : clamp quantile=.finite clamped) :
    quantileIndex quantile size=.ok ⌊binary64.nearest (clamped*(size-1 : ℕ))⌋₊ := by
  rw [quantileIndex,hc]
  simp only [nearest_size ((Nat.sub_le _ _).trans hsize)]

end Quantiles

section Reports

variable {K : Type} [Zero K] {h : LatencyHistogram K}

/-- Before the first record every percentile is zero. -/
theorem percentile_empty (he : h.samples=[]) (quantile : FloatNumber binary64) :
    h.percentile quantile=.ok 0 := by
  rw [percentile,if_pos he]

/-- A percentile of a window that is not empty is the sample at its index. -/
theorem percentile_eq (hne : h.samples≠[]) (hsize : h.samples.length≤2^53)
    {quantile : FloatNumber binary64} {clamped : ℚ} (hc : clamp quantile=.finite clamped)
    (hle : clamped≤1) :
    ∃ hlt : ⌊binary64.nearest (clamped*(h.samples.length-1 : ℕ))⌋₊<h.samples.length,
      h.percentile quantile=
        .ok h.samples[⌊binary64.nearest (clamped*(h.samples.length-1 : ℕ))⌋₊] := by
  have hlt := index_lt (List.length_pos_iff.mpr hne) hsize hle
  refine ⟨hlt,?_⟩
  rw [percentile,if_neg hne,quantileIndex_eq hsize hc,ok_bind,List.getElem?_eq_getElem hlt]

/-- The minimum and the maximum of a window are its ends. -/
theorem extremes_eq (hne : 0<h.samples.length) :
    h.minimum=h.samples[0] ∧ h.maximum=h.samples[h.samples.length-1] := by
  constructor
  · rw [minimum,List.head?_eq_getElem?,List.getElem?_eq_getElem hne,Option.getD_some]
  · rw [maximum,List.getLast?_eq_getElem?,List.getElem?_eq_getElem (by omega),Option.getD_some]

end Reports

/-- The oldest sample is found, and it alone is removed. -/
theorem evicted_perm {K : Type} [LinearOrder K] {samples rest : List K} {oldest : K}
    (hs : samples.Pairwise (·≤·)) (hp : samples.Perm (oldest :: rest)) :
    (evicted samples oldest).Perm rest := by
  have hfound := getElem?_bisectLeft hs (hp.mem_iff.mpr List.mem_cons_self)
  rw [evicted,if_pos hfound]
  exact ((cons_eraseIdx_perm hfound).trans hp).cons_inv

/-- An eviction keeps the samples sorted. -/
theorem evicted_sorted {K : Type} [LinearOrder K] {samples : List K} {oldest : K}
    (hs : samples.Pairwise (·≤·)) :
    (evicted samples oldest).Pairwise (·≤·) := by
  rw [evicted]
  split
  · exact eraseIdx_sorted hs _
  · exact hs

section Sums

/-- A number that a float holds. -/
def IsDouble (x : ℚ) : Prop := FloatNumber.round binary64 x=.finite x

/-- The sum of some floats, added one after another. -/
def total (numbers : List (FloatNumber binary64)) : FloatNumber binary64 :=
  numbers.foldl (·+·) 0

/-- No rounding in the mean of some numbers: floats hold every running sum, the
count and the quotient. -/
structure Unrounded (numbers : List ℚ) : Prop where
  /-- Every running sum. -/
  sums : ∀ initial, initial<+:numbers → IsDouble initial.sum
  /-- The count. -/
  count : IsDouble numbers.length
  /-- The quotient. -/
  quotient : IsDouble (numbers.sum/numbers.length)

/-- Without rounding the floats add up to the sum. -/
theorem total_eq {numbers : List ℚ} (h : ∀ initial, initial<+:numbers → IsDouble initial.sum) :
    total (numbers.map .finite)=.finite numbers.sum := by
  induction numbers using List.reverseRecOn with
  | nil => rfl
  | append_singleton numbers x ih =>
    have hsum := h _ (List.prefix_refl _)
    rw [List.sum_append,List.sum_singleton] at hsum ⊢
    have hbefore := ih (fun initial hp => h initial (hp.trans (List.prefix_append _ _)))
    rw [total] at hbefore ⊢
    rw [List.map_append,List.foldl_append,hbefore]
    exact hsum

end Sums

section Records

variable {K : Type} [LinearOrder K] {number : K → FloatNumber binary64} {capacity : ℕ}
  {values : List K} {h : LatencyHistogram K}

/-- The histogram describes the window of a history: once sorted, once in the
order of arrival. -/
structure Tracks (number : K → FloatNumber binary64) (capacity : ℕ) (values : List K)
    (h : LatencyHistogram K) : Prop where
  bound : h.capacity=capacity
  sorted : h.samples.Pairwise (·≤·)
  window : h.samples.Perm h.order
  order : h.order=recent capacity values
  count : h.count=values.length
  total : h.total=LatencyWindow.total (values.map number)

/-- A record while the window has room. -/
theorem record_room (hroom : ¬h.capacity≤(h.samples.length : ℤ)) (value : K) :
    h.record number value=.ok {h with
      count := h.count+1, total := h.total+number value,
      samples := insort h.samples value, order := h.order++[value]} := by
  simp only [record]
  rw [if_neg hroom]

/-- A record into a full window. -/
theorem record_full {oldest : K} {rest : List K} (hfull : h.capacity≤(h.samples.length : ℤ))
    (horder : h.order=oldest :: rest) (value : K) :
    h.record number value=.ok {h with
      count := h.count+1, total := h.total+number value,
      samples := insort (evicted h.samples oldest) value, order := rest++[value]} := by
  simp only [record]
  rw [if_pos hfull,horder]

/-- One record: it does not raise, and the histogram describes the longer
history. -/
theorem record_tracks (hpos : 0<capacity) (ht : Tracks number capacity values h) (value : K) :
    ∃ h', h.record number value=.ok h' ∧ Tracks number capacity (values++[value]) h' := by
  have hlen : h.samples.length=min values.length capacity := by
    rw [ht.window.length_eq,ht.order,recent_length]
  have hcount : h.count+1=(values++[value]).length := by rw [ht.count,List.length_append]; rfl
  have htotal : h.total+number value=total ((values++[value]).map number) := by
    rw [ht.total,total,total,List.map_append,List.foldl_append]
    rfl
  have hcap := ht.bound
  by_cases hlong : capacity≤values.length
  · obtain ⟨oldest,rest,hold,hnew⟩ := recent_full hpos hlong value
    have horder := ht.order.trans hold
    have hwindow := ht.window
    rw [horder] at hwindow
    have hsorted : (evicted h.samples oldest).Pairwise (·≤·) := evicted_sorted ht.sorted
    refine ⟨_,record_full (by omega) horder value,?_⟩
    refine ⟨hcap,insort_sorted hsorted value,?_,hnew.symm,hcount,htotal⟩
    refine (insort_perm hsorted value).trans ?_
    exact ((evicted_perm ht.sorted hwindow).cons value).trans
      (List.perm_append_singleton value rest).symm
  · refine ⟨_,record_room (by omega) value,?_⟩
    refine ⟨hcap,insort_sorted ht.sorted value,?_,?_,hcount,htotal⟩
    · refine (insort_perm ht.sorted value).trans ?_
      exact (ht.window.cons value).trans (List.perm_append_singleton value h.order).symm
    · change h.order++[value]=recent capacity (values++[value])
      rw [recent_room (by omega) value,ht.order]

/-- All records after a history. -/
theorem foldlM_tracks (hpos : 0<capacity) (ht : Tracks number capacity values h) (later : List K) :
    ∃ h', later.foldlM (fun h value => h.record number value) h=.ok h' ∧
      Tracks number capacity (values++later) h' := by
  induction later generalizing values h with
  | nil =>
    refine ⟨h,rfl,?_⟩
    rw [List.append_nil]
    exact ht
  | cons value later ih =>
    obtain ⟨h₁,hrec,ht₁⟩ := record_tracks hpos ht value
    obtain ⟨h₂,hrest,ht₂⟩ := ih ht₁
    refine ⟨h₂,?_,?_⟩
    · rw [List.foldlM_cons,hrec]
      exact hrest
    · rw [List.append_assoc] at ht₂
      exact ht₂

/-- A new histogram describes the empty history. -/
theorem create_tracks (hpos : 0<capacity) :
    ∃ h : LatencyHistogram K, create (capacity : ℤ)=.ok h ∧ Tracks number capacity [] h := by
  refine ⟨{capacity := capacity},?_,rfl,List.Pairwise.nil,List.Perm.nil,?_,rfl,rfl⟩
  · rw [create,if_neg (by omega)]
  · exact (List.length_eq_zero_iff.mp (by rw [recent_length]; simp)).symm

/-- Every history is recorded, and the histogram describes it. -/
theorem recorded_tracks (hpos : 0<capacity) (values : List K) :
    ∃ h, recorded number capacity values=.ok h ∧ Tracks number capacity values h := by
  obtain ⟨h,hnew,ht⟩ := @create_tracks K _ number capacity hpos
  obtain ⟨h',hrun,ht'⟩ := foldlM_tracks hpos ht values
  refine ⟨h',?_,ht'⟩
  rw [recorded,hnew]
  exact hrun

/-- A reset histogram is a new one. -/
theorem reset_tracks (ht : Tracks number capacity values h) :
    Tracks number capacity [] h.reset := by
  refine ⟨ht.bound,List.Pairwise.nil,List.Perm.nil,?_,rfl,rfl⟩
  exact (List.length_eq_zero_iff.mp (by rw [recent_length]; simp)).symm

variable [Zero K]

/-- What a histogram reports after a history of records. -/
structure Slides (number : K → FloatNumber binary64) (capacity : ℕ) (values : List K)
    (h : LatencyHistogram K) : Prop where
  /-- The samples are sorted. -/
  sorted : h.samples.Pairwise (·≤·)
  /-- They are the last values of the history, in some order. -/
  window : h.samples.Perm (recent capacity values)
  /-- The deque holds these in the order of their arrival. -/
  order : h.order=recent capacity values
  /-- The count is that of the whole history. -/
  count : h.count=values.length
  /-- So is the mean, where nothing is rounded. -/
  mean : ∀ numbers : List ℚ, values.map number=numbers.map .finite → Unrounded numbers →
    h.mean=.finite (numbers.sum/numbers.length)
  /-- A percentile is the sample at the floor of the rounded product. -/
  percentile : h.samples≠[] → h.samples.length≤2^53 → ∀ quantile≠.nan,
    ∃ clamped, clamp quantile=.finite clamped ∧
      ∃ hlt : ⌊binary64.nearest (clamped*(h.samples.length-1 : ℕ))⌋₊<h.samples.length,
        h.percentile quantile=
          .ok h.samples[⌊binary64.nearest (clamped*(h.samples.length-1 : ℕ))⌋₊]
  /-- Percentiles exist and do not decrease. -/
  monotone : h.samples.length≤2^53 → ∀ quantile≠.nan, ∀ other≠.nan, quantile≤other →
    ∃ x y, h.percentile quantile=.ok x ∧ h.percentile other=.ok y ∧ x≤y
  /-- They lie between the extremes. -/
  between : h.samples.length≤2^53 → ∀ quantile≠.nan,
    ∃ x, h.percentile quantile=.ok x ∧ h.minimum≤x ∧ x≤h.maximum

omit [Zero K] in
/-- The mean of a history. -/
theorem Tracks.mean_eq (ht : Tracks number capacity values h) {numbers : List ℚ}
    (hn : values.map number=numbers.map .finite) (hu : Unrounded numbers) :
    h.mean=.finite (numbers.sum/numbers.length) := by
  have hlen : values.length=numbers.length := by
    have hl := congrArg List.length hn
    rwa [List.length_map,List.length_map] at hl
  rw [mean,ht.count,ht.total,hlen,hn,total_eq hu.sums,hu.count]
  split
  · next hz =>
    rw [hz,Nat.cast_zero,div_zero]
    rfl
  · next hz =>
    have hne : (numbers.length : ℚ)≠0 := Nat.cast_ne_zero.mpr hz
    exact (if_neg hne).trans hu.quotient

/-- A histogram that describes a history reports it. -/
theorem Tracks.slides (ht : Tracks number capacity values h) :
    Slides number capacity values h := by
  refine ⟨ht.sorted,ht.order ▸ ht.window,ht.order,ht.count,fun _ => ht.mean_eq,?_,?_,?_⟩
  · intro hne hsize quantile hq
    obtain ⟨clamped,hc,hle⟩ := clamp_finite hq
    exact ⟨clamped,hc,percentile_eq hne hsize hc hle⟩
  · intro hsize quantile hq other hq' hle
    by_cases hne : h.samples=[]
    · exact ⟨0,0,percentile_empty hne quantile,percentile_empty hne other,le_rfl⟩
    · obtain ⟨x,hx,hx1⟩ := clamp_finite hq
      obtain ⟨y,hy,hy1⟩ := clamp_finite hq'
      obtain ⟨hlt,heq⟩ := percentile_eq hne hsize hx hx1
      obtain ⟨hlt',heq'⟩ := percentile_eq hne hsize hy hy1
      refine ⟨_,_,heq,heq',getElem_le_getElem ht.sorted hlt hlt' ?_⟩
      refine Nat.floor_le_floor (nearest_mono binary64 ?_)
      exact mul_le_mul_of_nonneg_right (clamp_mono hle hx hy) (Nat.cast_nonneg _)
  · intro hsize quantile hq
    by_cases hne : h.samples=[]
    · refine ⟨0,percentile_empty hne quantile,?_,?_⟩
      · rw [minimum,hne]
        exact le_rfl
      · rw [maximum,hne]
        exact le_rfl
    · obtain ⟨clamped,hc,hle⟩ := clamp_finite hq
      obtain ⟨hlt,heq⟩ := percentile_eq hne hsize hc hle
      have hpos := List.length_pos_iff.mpr hne
      obtain ⟨hmin,hmax⟩ := extremes_eq hpos
      refine ⟨_,heq,?_,?_⟩
      · rw [hmin]
        exact getElem_le_getElem ht.sorted hpos hlt (Nat.zero_le _)
      · rw [hmax]
        exact getElem_le_getElem ht.sorted hlt (by omega) (by omega)

/-- After every history the histogram is the window that slides over it. -/
theorem recorded_slides (number : K → FloatNumber binary64) (hpos : 0<capacity)
    (values : List K) :
    ∃ h, recorded number capacity values=.ok h ∧ Slides number capacity values h := by
  obtain ⟨h,hrun,ht⟩ := recorded_tracks hpos values
  exact ⟨h,hrun,ht.slides⟩

/-- Three equal values and another one in a window of two. -/
theorem recorded_slides_two :
    ∃ h, recorded .finite (2 : ℕ) [1,1,1,(3 : ℚ)]=.ok h ∧ Slides .finite 2 [1,1,1,(3 : ℚ)] h :=
  recorded_slides .finite (by decide) [1,1,1,3]

end Records

/-- Seven tenths as a float, which is less. -/
def sevenTenths : ℚ := 3152519739159347/2^52

/-- A tenth as a float. -/
def oneTenth : ℚ := 3602879701896397/2^55

/-- Eleven samples. -/
def elevenSamples : List ℚ := (List.range 11).map (fun n => (n : ℚ))

/-- Among more samples than floats can count, the last index rounds up to none. -/
theorem percentile_beyond {K : Type} [Zero K] {h : LatencyHistogram K}
    (hl : h.samples.length=2^53+4) : h.percentile 1=.error listIndexError := by
  have hne : h.samples≠[] := by
    rw [←List.length_pos_iff,hl]
    decide
  have hindex : quantileIndex 1 (2^53+4)=.ok (2^53+4) := by decide +kernel
  rw [percentile,if_neg hne,hl,hindex,ok_bind,List.getElem?_eq_none hl.le]

/-- Rounded up, the product of a quantile and the last index gives the sample
above the one of its floor, and ten equal samples have a mean below all of
them. In a window of more samples than floats can count, the largest percentile
raises. -/
theorem percentile_rounded :
    (∃ h, recorded .finite 11 elevenSamples=.ok h ∧
      h.percentile (.finite sevenTenths)=.ok 7 ∧
        h.samples[⌊sevenTenths*((h.samples.length-1 : ℕ) : ℚ)⌋₊]?=some 6) ∧
      (∃ h, recorded .finite 10 (List.replicate 10 oneTenth)=.ok h ∧
        ∃ mean<oneTenth, h.mean=.finite mean) ∧
      ∃ h, recorded .finite (2^53+4 : ℕ) (List.replicate (2^53+4) oneTenth)=.ok h ∧
        h.percentile 1=.error listIndexError := by
  refine ⟨⟨⟨11,elevenSamples,elevenSamples,11,.finite 55⟩,?_,?_,?_⟩,
    ⟨⟨10,List.replicate 10 oneTenth,List.replicate 10 oneTenth,10,
      .finite (9007199254740991/2^53)⟩,?_,7205759403792793/2^56,?_,?_⟩,?_⟩
  · decide +kernel
  · decide +kernel
  · decide +kernel
  · decide +kernel
  · decide +kernel
  · decide +kernel
  · obtain ⟨h,hrun,ht⟩ := @recorded_tracks ℚ _ .finite (2^53+4)
      (Nat.succ_pos _) (List.replicate (2^53+4) oneTenth)
    refine ⟨h,hrun,percentile_beyond ?_⟩
    rw [ht.window.length_eq,ht.order,recent_length,List.length_replicate,Nat.min_self]

end CudaForge.LatencyWindow
