import CudaForge.BinaryFloats
import CudaForge.PythonStrings

/-!
# Numbers of Python

What a mapping holds for a number: an integer, a boolean or a float. They are
compared as the numbers they are, whatever their types. A float that is no
number is neither below nor above anything, and of two numbers `max` gives the
first unless the second is above it.
-/

namespace CudaForge.PythonNumbers

open BinaryFloats

/-- A number of one of three types. -/
inductive Number where
  /-- An integer. -/
  | int (value : ℤ)
  /-- A truth value, which is zero or one. -/
  | bool (value : Bool)
  /-- A float. -/
  | float (value : FloatNumber binary64)
  deriving DecidableEq

namespace Number

/-- Where a number stands between the infinities; `nan` stands nowhere. -/
def place : Number → Option (WithBot (WithTop ℚ))
  | .int value => some ((value : ℚ) : WithTop ℚ)
  | .bool value => some (((if value=true then 1 else 0 : ℚ)) : WithTop ℚ)
  | .float .nan => none
  | .float .negInf => some ⊥
  | .float .posInf => some (⊤ : WithTop ℚ)
  | .float (.finite value) => some (value : WithTop ℚ)

/-- `a < b`. -/
def below (a b : Number) : Bool :=
  match a.place,b.place with
  | some x,some y => decide (x<y)
  | _,_ => false

/-- `a <= b`. -/
def atMost (a b : Number) : Bool :=
  match a.place,b.place with
  | some x,some y => decide (x≤y)
  | _,_ => false

/-- `max(a, b)`. -/
def larger (a b : Number) : Number := if a.below b=true then b else a

/-- The type is `int` itself. -/
def isInt : Number → Bool
  | .int _ => true
  | _ => false

variable {a b c : Number}

/-- No number is below itself. -/
theorem below_self (a : Number) : a.below a=false := by
  rw [below]
  cases a.place with
  | none => rfl
  | some x => exact decide_eq_false (lt_irrefl x)

/-- The larger number is not below the second. -/
theorem larger_not_below (a b : Number) : (larger a b).below b=false := by
  rw [larger]
  by_cases h : a.below b=true
  · rw [if_pos h]
    exact below_self b
  · rw [if_neg h]
    exact Bool.eq_false_iff.mpr h

/-- A number that is not below the second is the larger one. -/
theorem larger_of_not_below (h : a.below b=false) : larger a b=a := by
  rw [larger,if_neg (Bool.eq_false_iff.mp h)]

/-- Against what is no number the first is the larger one. -/
theorem larger_nan (h : b.place=none) : larger a b=a := by
  refine larger_of_not_below ?_
  rw [below,h]
  cases a.place with
  | none => rfl
  | some x => rfl

/-- The larger number is above what the second is above. -/
theorem larger_above (hn : b.place≠none) (hb : b.atMost c=false) :
    (larger a b).atMost c=false := by
  rw [larger]
  by_cases h : a.below b=true
  · rw [if_pos h]
    exact hb
  · rw [if_neg h,atMost]
    obtain ⟨y,hy⟩ := Option.ne_none_iff_exists'.mp hn
    rw [below,hy] at h
    rw [atMost,hy] at hb
    cases ha : a.place with
    | none => rfl
    | some x =>
      rw [ha] at h
      cases hc : c.place with
      | none => rfl
      | some z =>
        rw [hc] at hb
        have hxy : y≤x := not_lt.mp (fun hlt => h (decide_eq_true hlt))
        have hzy : z<y := not_le.mp (of_decide_eq_false hb)
        exact decide_eq_false (not_le.mpr (hzy.trans_le hxy))

/-- Only against what is no number is the larger one at most what the second is
above. -/
theorem larger_atMost (hb : b.atMost c=false) :
    (larger a b).atMost c=true ↔ b.place=none ∧ a.atMost c=true := by
  by_cases hn : b.place=none
  · rw [larger_nan hn]
    exact ⟨fun h => ⟨hn,h⟩,fun h => h.2⟩
  · rw [larger_above hn hb]
    exact ⟨fun h => absurd h Bool.false_ne_true,fun h => absurd h.1 hn⟩

/-- An integer, if it is one. -/
theorem exists_of_isInt (h : a.isInt=true) : ∃ value, a=.int value := by
  cases a with
  | int value => exact ⟨value,rfl⟩
  | bool value => exact absurd h Bool.false_ne_true
  | float value => exact absurd h Bool.false_ne_true

end Number

end CudaForge.PythonNumbers
