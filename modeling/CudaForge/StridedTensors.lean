import Mathlib.Algebra.BigOperators.Group.List.Basic
import Mathlib.Tactic

/-!
# Views with strides

A view of a storage has a size and a stride for each dimension. Its elements are
numbered in row-major order; where each of them lies, the strides say. When each
stride is what the sizes behind it make up, an element lies at its own number.
-/

namespace CudaForge.StridedTensors

/-- A view. -/
structure Strided (α : Type) where
  /-- The size of each dimension. -/
  sizes : List ℕ
  /-- How far apart the elements of each dimension lie. -/
  strides : List ℕ
  /-- There are as many. -/
  ranked : strides.length=sizes.length
  /-- What is viewed. -/
  storage : ℕ → α

/-- Where the element of a number lies. -/
def offset : List ℕ → List ℕ → ℕ → ℕ
  | [],_,_ => 0
  | _::_,[],_ => 0
  | size::sizes,stride::strides,place =>
    place/sizes.prod%size*stride+offset sizes strides (place%sizes.prod)

/-- Each stride is what the sizes behind it make up, but where there is only one
element to stride to. -/
def rowMajor : List ℕ → List ℕ → Bool
  | [],_ => true
  | _::_,[] => true
  | size::sizes,stride::strides =>
    (decide (size=1) || decide (stride=sizes.prod)) && rowMajor sizes strides

/-- The strides of elements that lie one behind another. -/
def denseStrides : List ℕ → List ℕ
  | [] => []
  | _::sizes => sizes.prod::denseStrides sizes

section Places

variable {sizes strides : List ℕ} {place : ℕ}

/-- There is one for each dimension. -/
theorem denseStrides_length (sizes : List ℕ) : (denseStrides sizes).length=sizes.length := by
  induction sizes with
  | nil => rfl
  | cons size sizes ih => rw [denseStrides,List.length_cons,List.length_cons,ih]

/-- They are as they should be. -/
theorem rowMajor_denseStrides (sizes : List ℕ) : rowMajor sizes (denseStrides sizes)=true := by
  induction sizes with
  | nil => rfl
  | cons size sizes ih =>
    rw [denseStrides,rowMajor,ih,decide_eq_true rfl,Bool.or_true,Bool.and_self]

/-- Then the element of a number lies at that number. -/
theorem offset_rowMajor (hl : strides.length=sizes.length) (h : rowMajor sizes strides=true)
    (hp : place < sizes.prod) : offset sizes strides place=place := by
  induction sizes generalizing strides place with
  | nil =>
    rw [List.prod_nil] at hp
    rw [offset]
    omega
  | cons size sizes ih =>
    cases strides with
    | nil => exact absurd hl (Nat.succ_ne_zero sizes.length).symm
    | cons stride strides =>
      rw [rowMajor,Bool.and_eq_true,Bool.or_eq_true] at h
      rw [List.prod_cons] at hp
      have hinner : 0 < sizes.prod := Nat.pos_of_mul_pos_left (Nat.zero_lt_of_lt hp)
      have hquot : place/sizes.prod<size := Nat.div_lt_of_lt_mul (by rwa [Nat.mul_comm])
      have hrest := ih (Nat.succ.inj hl) h.2 (Nat.mod_lt place hinner)
      have hfirst : place/sizes.prod%size*stride=place/sizes.prod*sizes.prod := by
        rw [Nat.mod_eq_of_lt hquot]
        rcases h.1 with hone | hstride
        · -- one element: its number along this dimension is zero
          rw [of_decide_eq_true hone] at hquot
          rw [Nat.lt_one_iff.mp hquot,Nat.zero_mul,Nat.zero_mul]
        · rw [of_decide_eq_true hstride]
      rw [offset,hfirst,hrest]
      exact Nat.div_add_mod' place sizes.prod

end Places

namespace Strided

variable {α : Type}

/-- How many elements there are. -/
def numel (t : Strided α) : ℕ := t.sizes.prod

/-- The element of a number. -/
def element (t : Strided α) (place : ℕ) : α := t.storage (offset t.sizes t.strides place)

/-- Whether the elements lie one behind another. -/
def isContiguous (t : Strided α) : Bool := decide (t.numel=0) || rowMajor t.sizes t.strides

/-- A copy whose elements do. -/
def compact (t : Strided α) : Strided α :=
  ⟨t.sizes,denseStrides t.sizes,denseStrides_length t.sizes,t.element⟩

/-- What is read number by number from a view whose elements lie one behind another. -/
theorem element_contiguous {t : Strided α} (h : t.isContiguous=true) {place : ℕ}
    (hp : place < t.numel) : t.element place=t.storage place := by
  rw [isContiguous,Bool.or_eq_true] at h
  rcases h with hzero | hrow
  · rw [of_decide_eq_true hzero] at hp
    exact absurd hp (Nat.not_lt_zero place)
  · rw [element,offset_rowMajor t.ranked hrow hp]

/-- The elements of a copy lie one behind another. -/
theorem compact_isContiguous (t : Strided α) : t.compact.isContiguous=true := by
  rw [isContiguous,compact,rowMajor_denseStrides,Bool.or_true]

/-- They are the same. -/
theorem compact_element (t : Strided α) {place : ℕ} (hp : place < t.numel) :
    t.compact.element place=t.element place :=
  element_contiguous t.compact_isContiguous hp

end Strided

end CudaForge.StridedTensors
