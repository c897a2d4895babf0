import Mathlib.Data.Int.Log
import Mathlib.Data.Rat.Floor
import Mathlib.Tactic

/-!
# Binary floating-point numbers

A rational number is rounded to the nearest multiple of its quantum, the even
one of two. The quantum grows with the number and has a least exponent, and what
is too large becomes infinite. Rounding keeps the order and keeps every number
that the format has. Zeros carry no sign.
-/

namespace CudaForge.BinaryFloats

/-- The nearest integer, the even one of two. -/
def roundEven (x : ℚ) : ℤ :=
  if Int.fract x<1/2 then ⌊x⌋
  else if 1/2<Int.fract x then ⌊x⌋+1
  else if ⌊x⌋%2=0 then ⌊x⌋ else ⌊x⌋+1

/-- A binary format. -/
structure Format where
  /-- Bits of a significand. -/
  precision : ℕ
  /-- The exponent of the least quantum. -/
  least : ℤ
  /-- The exponent of the power of two that is too large. -/
  greatest : ℤ
  precision_pos : 0<precision

namespace Format

/-- The exponent of a number's quantum. -/
def exponent (f : Format) (x : ℚ) : ℤ := max (Int.log 2 |x|+1-f.precision) f.least

/-- The quantum of a number. -/
def quantum (f : Format) (x : ℚ) : ℚ := 2^f.exponent x

/-- The nearest multiple of the quantum. -/
def nearest (f : Format) (x : ℚ) : ℚ := roundEven (x/f.quantum x)*f.quantum x

/-- From here on a number is too large: half a quantum below the power of two. -/
def threshold (f : Format) : ℚ := 2^f.greatest-2^(f.greatest-f.precision-1)

end Format

/-- Four bytes: `float32`. -/
def binary32 : Format := ⟨24,-149,128,Nat.succ_pos 23⟩

/-- Eight bytes: a Python float. -/
def binary64 : Format := ⟨53,-1074,1024,Nat.succ_pos 52⟩

/-- What a float of some format holds. -/
inductive FloatNumber (f : Format) where
  /-- No number. -/
  | nan
  /-- Below all numbers. -/
  | negInf
  /-- Above all numbers. -/
  | posInf
  /-- A number. -/
  | finite (value : ℚ)
  deriving DecidableEq

namespace FloatNumber

variable {f g : Format}

/-- A rational number as a float. -/
def round (f : Format) (x : ℚ) : FloatNumber f :=
  if f.threshold≤x then .posInf
  else if x≤ -f.threshold then .negInf
  else .finite (f.nearest x)

instance : Zero (FloatNumber f) := ⟨.finite 0⟩

instance : One (FloatNumber f) := ⟨.finite 1⟩

/-- A float of another format. -/
def convert (g : Format) : FloatNumber f → FloatNumber g
  | .nan => .nan
  | .negInf => .negInf
  | .posInf => .posInf
  | .finite x => round g x

/-- The opposite. -/
def opposite : FloatNumber f → FloatNumber f
  | .nan => .nan
  | .negInf => .posInf
  | .posInf => .negInf
  | .finite x => .finite (-x)

/-- A sum; opposite infinities have none. -/
def sum : FloatNumber f → FloatNumber f → FloatNumber f
  | .nan,_ => .nan
  | _,.nan => .nan
  | .posInf,.negInf => .nan
  | .negInf,.posInf => .nan
  | .posInf,_ => .posInf
  | _,.posInf => .posInf
  | .negInf,_ => .negInf
  | _,.negInf => .negInf
  | .finite x,.finite y => round f (x+y)

instance : Add (FloatNumber f) := ⟨sum⟩

instance : Sub (FloatNumber f) := ⟨fun x y => x+y.opposite⟩

/-- A quotient. Zero, which has no sign here, divides nothing. -/
def quotient : FloatNumber f → FloatNumber f → FloatNumber f
  | .nan,_ => .nan
  | _,.nan => .nan
  | .finite _,.negInf => 0
  | .finite _,.posInf => 0
  | x,.finite y =>
    if y=0 then .nan
    else match x with
      | .finite x => round f (x/y)
      | x => if y<0 then x.opposite else x
  | _,_ => .nan

instance : Div (FloatNumber f) := ⟨quotient⟩

/-- `<`, which fails wherever something is no number. -/
def below : FloatNumber f → FloatNumber f → Bool
  | .nan,_ => false
  | _,.nan => false
  | _,.negInf => false
  | .negInf,_ => true
  | .posInf,_ => false
  | _,.posInf => true
  | .finite x,.finite y => decide (x<y)

instance : LT (FloatNumber f) := ⟨fun x y => x.below y=true⟩

instance : DecidableLT (FloatNumber f) := fun x y => inferInstanceAs (Decidable (x.below y=true))

/-- The order of a sort, in which what is no number comes last. -/
def precedes : FloatNumber f → FloatNumber f → Bool
  | _,.nan => true
  | .nan,_ => false
  | .negInf,_ => true
  | _,.negInf => false
  | _,.posInf => true
  | .posInf,_ => false
  | .finite x,.finite y => decide (x≤y)

instance : LE (FloatNumber f) := ⟨fun x y => x.precedes y=true⟩

instance : DecidableLE (FloatNumber f) :=
  fun x y => inferInstanceAs (Decidable (x.precedes y=true))

instance : Bot (FloatNumber f) := ⟨.negInf⟩

/-- Numbers are compared as such. -/
@[simp] theorem finite_lt {x y : ℚ} : (finite x : FloatNumber f)<finite y ↔ x<y :=
  decide_eq_true_iff

/-- So are they in a sort. -/
@[simp] theorem finite_le {x y : ℚ} : (finite x : FloatNumber f)≤finite y ↔ x≤y :=
  decide_eq_true_iff

/-- A sort compares any two floats. -/
theorem precedes_total (x y : FloatNumber f) : x≤y ∨ y≤x := by
  cases x <;> cases y
  case finite.finite x y => exact (le_total x y).imp finite_le.mpr finite_le.mpr
  all_goals first | exact Or.inl rfl | exact Or.inr rfl

/-- A sort compares consistently. -/
theorem precedes_trans {x y z : FloatNumber f} (hxy : x≤y) (hyz : y≤z) : x≤z := by
  cases x <;> cases y <;> cases z
  case finite.finite.finite x y z =>
    exact finite_le.mpr ((finite_le.mp hxy).trans (finite_le.mp hyz))
  all_goals first
    | rfl
    | exact absurd hxy Bool.false_ne_true
    | exact absurd hyz Bool.false_ne_true

/-- What a sort puts first is not above. -/
theorem not_lt_of_precedes {x y : FloatNumber f} (h : y≤x) : ¬x<y := by
  cases x <;> cases y
  case finite.finite x y => exact fun hlt => absurd (finite_le.mp h) (finite_lt.mp hlt).not_ge
  all_goals first
    | exact Bool.false_ne_true
    | exact absurd h Bool.false_ne_true

/-- Nothing is below what is no number. -/
theorem not_lt_nan (x : FloatNumber f) : ¬x<nan := by
  cases x <;> exact Bool.false_ne_true

/-- What is no number, or above all, is below nothing. -/
theorem not_lt_of_abnormal {x : FloatNumber f} (h : x=nan ∨ x=posInf) (y : FloatNumber f) :
    ¬x<y := by
  rcases h with rfl|rfl <;> cases y <;> exact Bool.false_ne_true

/-- Subtracting no number gives none. -/
theorem sub_nan (x : FloatNumber f) : x-nan=nan := by
  cases x <;> rfl

end FloatNumber

section Integers

/-- An integer is its own nearest. -/
theorem roundEven_intCast (n : ℤ) : roundEven n=n := by
  rw [roundEven,Int.fract_intCast,if_pos (by norm_num),Int.floor_intCast]

/-- The nearest integer is next to the number. -/
theorem roundEven_bounds (x : ℚ) : ⌊x⌋≤roundEven x ∧ roundEven x≤⌊x⌋+1 := by
  rw [roundEven]
  split_ifs <;> omega

/-- A larger number has no smaller nearest integer. -/
theorem roundEven_mono {x y : ℚ} (h : x≤y) : roundEven x≤roundEven y := by
  have hx := roundEven_bounds x
  have hy := roundEven_bounds y
  rcases (Int.floor_le_floor h).lt_or_eq with hlt|heq
  · omega
  · have hfract : Int.fract x≤Int.fract y := by
      rw [Int.fract,Int.fract,heq]
      linarith
    rw [roundEven,roundEven,heq]
    split_ifs
    all_goals first | omega | linarith

/-- Opposite numbers have opposite nearest integers. -/
theorem roundEven_neg (x : ℚ) : roundEven (-x)= -roundEven x := by
  by_cases hz : Int.fract x=0
  · obtain ⟨n,rfl⟩ := Int.fract_eq_zero_iff.mp hz
    rw [←Int.cast_neg,roundEven_intCast,roundEven_intCast]
  · have hfract : Int.fract (-x)=1-Int.fract x := Int.fract_neg hz
    have hfloor : ⌊-x⌋= -⌊x⌋-1 := by
      have hceil := Int.ceil_eq_add_one_sub_fract hz
      have hcast : (⌈x⌉ : ℚ)=((⌊x⌋+1 : ℤ) : ℚ) := by
        rw [hceil,Int.fract]
        push_cast
        ring
      rw [Int.floor_neg,Int.cast_inj.mp hcast]
      ring
    rw [roundEven,roundEven,hfract,hfloor]
    split_ifs
    all_goals first | omega | (exfalso; linarith)

end Integers

section Rounding

variable (f : Format)

/-- A quantum is positive. -/
theorem quantum_pos (x : ℚ) : 0<f.quantum x := zpow_pos two_pos _

/-- Zero is its own nearest. -/
theorem nearest_zero : f.nearest 0=0 := by
  rw [Format.nearest,zero_div,←Int.cast_zero,roundEven_intCast,Int.cast_zero,zero_mul]

/-- Opposite numbers have opposite nearest ones. -/
theorem nearest_neg (x : ℚ) : f.nearest (-x)= -f.nearest x := by
  rw [Format.nearest,Format.nearest,Format.quantum,Format.quantum,Format.exponent,
    Format.exponent,abs_neg,neg_div,roundEven_neg,Int.cast_neg,neg_mul]

/-- A multiple of the quantum is its own nearest. -/
theorem nearest_multiple {x : ℚ} {n : ℤ} (h : x=n*f.quantum x) : f.nearest x=x := by
  rw [Format.nearest,(div_eq_iff (quantum_pos f x).ne').mpr h,roundEven_intCast,←h]

/-- Within a multiple of the quantum is within it once rounded. -/
theorem nearest_le {x : ℚ} {n : ℤ} (h : x≤n*f.quantum x) : f.nearest x≤n*f.quantum x := by
  have hle := roundEven_mono ((div_le_iff₀ (quantum_pos f x)).mpr h)
  rw [roundEven_intCast] at hle
  exact mul_le_mul_of_nonneg_right (Int.cast_le.mpr hle) (quantum_pos f x).le

/-- Above a multiple of the quantum is above it once rounded. -/
theorem le_nearest {x : ℚ} {n : ℤ} (h : n*f.quantum x≤x) : n*f.quantum x≤f.nearest x := by
  have hle := roundEven_mono ((le_div_iff₀ (quantum_pos f x)).mpr h)
  rw [roundEven_intCast] at hle
  exact mul_le_mul_of_nonneg_right (Int.cast_le.mpr hle) (quantum_pos f x).le

/-- What is not negative does not become so. -/
theorem nearest_nonneg {x : ℚ} (h : 0≤x) : 0≤f.nearest x := by
  have hle : (0 : ℤ)*f.quantum x≤x := by rwa [Int.cast_zero,zero_mul]
  have hn := le_nearest f hle
  rwa [Int.cast_zero,zero_mul] at hn

/-- A power of two is a multiple of every smaller one. -/
theorem zpow_multiple {e k : ℤ} (h : e≤k) : ∃ n : ℤ, (2 : ℚ)^k=n*2^e := by
  obtain ⟨d,rfl⟩ := Int.le.dest h
  refine ⟨2^d,?_⟩
  rw [zpow_add₀ two_ne_zero,zpow_natCast,mul_comm]
  push_cast
  rfl

/-- Positive numbers keep their order. -/
theorem nearest_mono_pos {x y : ℚ} (hx : 0<x) (h : x≤y) : f.nearest x≤f.nearest y := by
  have hy : 0<y := hx.trans_le h
  have hlog : Int.log 2 |x| ≤ Int.log 2 |y| := by
    rw [abs_of_pos hx,abs_of_pos hy]
    exact Int.log_mono_right hx h
  have hp := f.precision_pos
  have hexp : f.exponent x≤f.exponent y := max_le_max_right _ (by omega)
  rcases hexp.eq_or_lt with heq|hlt
  · have hq : f.quantum x=f.quantum y := congrArg (fun e => (2 : ℚ)^e) heq
    have hdiv : x/f.quantum x≤y/f.quantum y := by
      rw [hq]
      exact div_le_div_of_nonneg_right h (quantum_pos f y).le
    rw [Format.nearest,Format.nearest,hq]
    rw [hq] at hdiv
    exact mul_le_mul_of_nonneg_right (Int.cast_le.mpr (roundEven_mono hdiv)) (quantum_pos f y).le
  · -- the power of two below the larger number separates the two
    have hexpy : f.exponent y=Int.log 2 |y|+1-f.precision := by
      rw [Format.exponent,Format.exponent] at *
      omega
    have hexpx : Int.log 2 |x|+1-f.precision≤f.exponent x := le_max_left _ _
    have hbelow : x < 2^Int.log 2 |y| := by
      rw [←abs_of_pos hx]
      exact (Int.lt_zpow_iff_log_lt one_lt_two (abs_pos.mpr hx.ne')).mpr (by omega)
    have habove : (2 : ℚ)^Int.log 2 |y| ≤ y := by
      rw [abs_of_pos hy]
      exact Int.zpow_log_le_self one_lt_two hy
    obtain ⟨n,hn⟩ := zpow_multiple (show f.exponent x ≤ Int.log 2 |y| by omega)
    obtain ⟨m,hm⟩ := zpow_multiple (show f.exponent y ≤ Int.log 2 |y| by omega)
    calc f.nearest x≤n*f.quantum x := nearest_le f (hn ▸ hbelow.le)
      _ = m*f.quantum y := hn.symm.trans hm
      _ ≤ f.nearest y := le_nearest f (hm ▸ habove)

/-- Rounding keeps the order. -/
theorem nearest_mono {x y : ℚ} (h : x≤y) : f.nearest x≤f.nearest y := by
  rcases lt_or_ge 0 x with hx|hx
  · exact nearest_mono_pos f hx h
  · rcases lt_or_ge y 0 with hy|hy
    · have hneg := nearest_mono_pos f (neg_pos.mpr hy) (neg_le_neg h)
      rw [nearest_neg,nearest_neg] at hneg
      exact neg_le_neg_iff.mp hneg
    · have hneg := nearest_nonneg f (neg_nonneg.mpr hx)
      rw [nearest_neg] at hneg
      exact (neg_nonneg.mp hneg).trans (nearest_nonneg f hy)

/-- A number that needs no more bits than a significand has is kept. -/
theorem nearest_exact {n e : ℤ} (hn : |n| ≤ 2^f.precision) (he : f.least≤e) :
    f.nearest (n*2^e)=n*2^e := by
  by_cases hz : n=0
  · rw [hz,Int.cast_zero,zero_mul]
    exact nearest_zero f
  · have hpow : (0 : ℚ)<2^e := zpow_pos two_pos e
    have habs : |(n : ℚ)*2^e|=(|n| : ℤ)*2^e := by
      rw [abs_mul,abs_of_pos hpow,Int.cast_abs]
    have hpos : 0 < |(n : ℚ)*2^e| := by
      rw [abs_pos]
      exact mul_ne_zero (Int.cast_ne_zero.mpr hz) hpow.ne'
    have hle : |(n : ℚ)*2^e| ≤ 2^(f.precision+e) := by
      rw [habs,zpow_add₀ two_ne_zero,zpow_natCast]
      refine mul_le_mul_of_nonneg_right ?_ hpow.le
      exact_mod_cast hn
    by_cases hexp : f.exponent (n*2^e)≤e
    · obtain ⟨m,hm⟩ := zpow_multiple hexp
      refine nearest_multiple f (n:=n*m) ?_
      rw [Int.cast_mul,mul_assoc]
      exact congrArg _ hm
    · -- only the power of two itself needs one bit more
      have hq : f.exponent (n*2^e)=Int.log 2 |(n : ℚ)*2^e|+1-f.precision := by
        rw [Format.exponent] at *
        omega
      have hge : (2 : ℚ)^(f.precision+e) ≤ |(n : ℚ)*2^e| :=
        (Int.zpow_le_iff_le_log one_lt_two hpos).mpr (by omega)
      have heq := le_antisymm hle hge
      have hlog : Int.log 2 |(n : ℚ)*2^e|=f.precision+e := by
        rw [heq]
        exact Int.log_zpow one_lt_two _
      have hp := f.precision_pos
      obtain ⟨m,hm⟩ := zpow_multiple (show f.exponent (n*2^e)≤f.precision+e by omega)
      rcases abs_eq_abs.mp (heq.trans (abs_of_pos (zpow_pos two_pos _)).symm) with hs|hs
      · exact nearest_multiple f (hs.trans hm)
      · refine nearest_multiple f (n:= -m) ?_
        rw [Int.cast_neg,neg_mul]
        exact hs.trans (congrArg _ hm)

end Rounding

end CudaForge.BinaryFloats
