import Mathlib.Tactic

/-!
# Symmetric quantisation of a group

A group of rationals is stored as integers up to a largest level and a scale that
maps its largest magnitude to that level. Values are rounded to the nearest
integer, a half to the even one. No clamping takes effect, so the error is half a
step, and quantising what comes back gives the same integers.
-/

namespace CudaForge.SymmetricQuantisation

/-- The nearest integer, or the even one of two. -/
def roundHalfEven (value : ℚ) : ℤ :=
  let rest := value-⌊value⌋
  if rest < 1/2 then ⌊value⌋
  else if 1/2 < rest then ⌊value⌋+1
  else if ⌊value⌋%2=0 then ⌊value⌋ else ⌊value⌋+1

/-- The step of a group whose largest magnitude is given. -/
def scaleOf (level : ℤ) (largest : ℚ) : ℚ := if 0<largest then largest/level else 1

/-- The integer that is stored for a value. -/
def codeOf (level : ℤ) (scale value : ℚ) : ℤ :=
  min (max (roundHalfEven (value/scale)) (-level)) level

section Rounding

variable {value : ℚ}

/-- Rounding goes to a neighbour. -/
theorem roundHalfEven_neighbour (value : ℚ) :
    roundHalfEven value=⌊value⌋ ∧ value-⌊value⌋ ≤ 1/2 ∨
      roundHalfEven value=⌊value⌋+1 ∧ 1/2 ≤ value-⌊value⌋ := by
  unfold roundHalfEven
  dsimp only
  split
  · next hlt => exact Or.inl ⟨rfl,hlt.le⟩
  · next hge =>
    split
    · next hgt => exact Or.inr ⟨rfl,hgt.le⟩
    · next hle =>
      split
      · exact Or.inl ⟨rfl,not_lt.mp hle⟩
      · exact Or.inr ⟨rfl,not_lt.mp hge⟩

/-- It is off by at most a half. -/
theorem roundHalfEven_error (value : ℚ) : |value-roundHalfEven value| ≤ 1/2 := by
  have hlow := Int.floor_le value
  have hhigh := Int.lt_floor_add_one value
  rcases roundHalfEven_neighbour value with ⟨he,hr⟩ | ⟨he,hr⟩
  · rw [he,abs_le]
    constructor <;> linarith
  · rw [he,abs_le]
    push_cast
    constructor <;> linarith

/-- An integer stays. -/
theorem roundHalfEven_int (n : ℤ) : roundHalfEven n=n := by
  rcases roundHalfEven_neighbour (n : ℚ) with ⟨he,_⟩ | ⟨_,hr⟩
  · rw [he,Int.floor_intCast]
  · rw [Int.floor_intCast,sub_self] at hr
    norm_num at hr

/-- A bound that is an integer stays a bound. -/
theorem roundHalfEven_le {n : ℤ} (h : value ≤ n) : roundHalfEven value ≤ n := by
  rcases roundHalfEven_neighbour value with ⟨he,_⟩ | ⟨he,hr⟩
  · rw [he]
    exact_mod_cast (Int.floor_le value).trans h
  · have hlt : (⌊value⌋ : ℚ) < n := by linarith
    rw [he]
    exact Int.add_one_le_of_lt (by exact_mod_cast hlt)

/-- So does one from below. -/
theorem le_roundHalfEven {n : ℤ} (h : (n : ℚ) ≤ value) : n ≤ roundHalfEven value := by
  have hfloor : n ≤ ⌊value⌋ := Int.le_floor.mpr h
  rcases roundHalfEven_neighbour value with ⟨he,_⟩ | ⟨he,_⟩ <;> rw [he] <;> omega

end Rounding

section Groups

variable {level : ℤ} {largest value scale : ℚ}

/-- The step is positive. -/
theorem scaleOf_pos (hl : 0<level) (largest : ℚ) : 0<scaleOf level largest := by
  rw [scaleOf]
  split
  · next hpos => exact div_pos hpos (Int.cast_pos.mpr hl)
  · exact zero_lt_one

/-- An integer that is stored is within the levels. -/
theorem codeOf_range (hl : 0<level) (scale value : ℚ) :
    -level ≤ codeOf level scale value ∧ codeOf level scale value ≤ level :=
  ⟨le_min (le_max_right _ _) (by omega),min_le_right _ _⟩

/-- Within the levels clamping does nothing. -/
theorem clamp_eq {n : ℤ} (hlow : -level ≤ n) (hhigh : n ≤ level) :
    min (max n (-level)) level=n := by
  rw [max_eq_left hlow,min_eq_left hhigh]

/-- A value of the group is within the levels, in steps. -/
theorem steps_range (hl : 0<level) (hv : |value| ≤ largest) :
    (-level : ℚ) ≤ value/scaleOf level largest ∧ value/scaleOf level largest ≤ level := by
  have hlq : (0 : ℚ) < level := Int.cast_pos.mpr hl
  obtain ⟨hlow,hhigh⟩ := abs_le.mp hv
  by_cases hpos : 0<largest
  · rw [scaleOf,if_pos hpos,div_div_eq_mul_div,le_div_iff₀ hpos,div_le_iff₀ hpos]
    constructor <;> nlinarith
  · obtain rfl : value=0 := abs_nonpos_iff.mp (hv.trans (not_lt.mp hpos))
    rw [zero_div]
    exact ⟨neg_nonpos.mpr hlq.le,hlq.le⟩

/-- Clamping never takes effect. -/
theorem codeOf_eq (hl : 0<level) (hv : |value| ≤ largest) :
    codeOf level (scaleOf level largest) value=
      roundHalfEven (value/scaleOf level largest) := by
  obtain ⟨hlow,hhigh⟩ := steps_range hl hv
  refine clamp_eq (le_roundHalfEven ?_) (roundHalfEven_le hhigh)
  rw [Int.cast_neg]
  exact hlow

/-- The error is at most half a step. -/
theorem codeOf_error (hl : 0<level) (hv : |value| ≤ largest) :
    |value-codeOf level (scaleOf level largest) value*scaleOf level largest| ≤
      scaleOf level largest/2 := by
  have hpos := scaleOf_pos hl largest
  rw [codeOf_eq hl hv]
  set scale := scaleOf level largest with hs
  have hvalue : value-roundHalfEven (value/scale)*scale=
      (value/scale-roundHalfEven (value/scale))*scale := by
    rw [sub_mul,div_mul_cancel₀ _ hpos.ne']
  have herror := mul_le_mul_of_nonneg_right (roundHalfEven_error (value/scale)) hpos.le
  rw [hvalue,abs_mul,abs_of_pos hpos]
  linarith

/-- Zero is stored as zero. -/
theorem codeOf_zero (hl : 0<level) (scale : ℚ) : codeOf level scale 0=0 := by
  have hzero : roundHalfEven 0=0 := by exact_mod_cast roundHalfEven_int 0
  rw [codeOf,zero_div,hzero]
  exact clamp_eq (by omega) hl.le

/-- A largest value comes back as it was. -/
theorem restored_largest (hl : 0<level) (hv : |value|=largest) :
    |(codeOf level (scaleOf level largest) value : ℚ)*scaleOf level largest|=largest := by
  have hlq : (level : ℚ)≠0 := Int.cast_ne_zero.mpr hl.ne'
  by_cases hpos : 0<largest
  · have hsteps : value/scaleOf level largest=level ∨ value/scaleOf level largest=-level := by
      rw [scaleOf,if_pos hpos]
      rcases abs_eq hpos.le |>.mp hv with rfl | rfl
      · left
        field_simp
      · right
        field_simp
    have hcode : roundHalfEven (value/scaleOf level largest)=level ∨
        roundHalfEven (value/scaleOf level largest)= -level := by
      rcases hsteps with he | he
      · exact Or.inl (by rw [he,roundHalfEven_int])
      · refine Or.inr ?_
        rw [he]
        exact_mod_cast roundHalfEven_int (-level)
    have hstep : (level : ℚ)*scaleOf level largest=largest := by
      rw [scaleOf,if_pos hpos,mul_div_cancel₀ _ hlq]
    rw [codeOf_eq hl hv.le]
    rcases hcode with he | he
    · rw [he,hstep,abs_of_pos hpos]
    · rw [he,Int.cast_neg,neg_mul,hstep,abs_neg,abs_of_pos hpos]
  · have hzero : largest=0 := le_antisymm (not_lt.mp hpos) (hv ▸ abs_nonneg value)
    obtain rfl : value=0 := abs_eq_zero.mp (hv.trans hzero)
    rw [codeOf_zero hl,Int.cast_zero,zero_mul,abs_zero,hzero]

/-- What comes back is no larger than the group. -/
theorem abs_restored_le_largest (hl : 0<level) (hv : |value| ≤ largest) :
    |(codeOf level (scaleOf level largest) value : ℚ)*scaleOf level largest| ≤ largest := by
  have hlq : (level : ℚ)≠0 := Int.cast_ne_zero.mpr hl.ne'
  by_cases hpos : 0<largest
  · have hscale := scaleOf_pos hl largest
    have hstep : (level : ℚ)*scaleOf level largest=largest := by
      rw [scaleOf,if_pos hpos,mul_div_cancel₀ _ hlq]
    obtain ⟨hlow,hhigh⟩ := codeOf_range hl (scaleOf level largest) value
    have habs : |(codeOf level (scaleOf level largest) value : ℚ)| ≤ level := by
      refine abs_le.mpr ⟨?_,?_⟩
      · exact_mod_cast hlow
      · exact_mod_cast hhigh
    have h := mul_le_mul_of_nonneg_right habs hscale.le
    rw [abs_mul,abs_of_pos hscale]
    exact h.trans hstep.le
  · obtain rfl : value=0 := abs_nonpos_iff.mp (hv.trans (not_lt.mp hpos))
    rw [codeOf_zero hl,Int.cast_zero,zero_mul,abs_zero]
    exact (abs_nonneg 0).trans hv

/-- With the same step, what comes back is stored as the same integer. -/
theorem codeOf_restored (hl : 0<level) (hscale : 0<scale) (value : ℚ) :
    codeOf level scale (codeOf level scale value*scale)=codeOf level scale value := by
  obtain ⟨hlow,hhigh⟩ := codeOf_range hl scale value
  generalize codeOf level scale value=code at hlow hhigh ⊢
  rw [codeOf,mul_div_cancel_right₀ _ hscale.ne',roundHalfEven_int,clamp_eq hlow hhigh]

end Groups

end CudaForge.SymmetricQuantisation
