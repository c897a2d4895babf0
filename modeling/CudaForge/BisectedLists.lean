import Mathlib.Data.List.DropRight
import Mathlib.Data.List.Perm.Basic
import Mathlib.Tactic

/-!
# Bisection of sorted lists

The loop of a bisection with its bounds inside the list. It is stated for any
test that the list answers first yes and then no, so that the search for the
leftmost and for the rightmost place are two instances. An item is inserted at
the rightmost place and found again at the leftmost.
-/

namespace CudaForge.BisectedLists

/-- The loop: halve the interval until nothing is between its ends. The test
says whether an item lies before the place that is sought. -/
def bisect {α : Type} (before : α → Bool) (xs : List α) (lo hi : ℕ) (hh : hi≤xs.length) : ℕ :=
  if h : lo<hi then
    let mid := (lo+hi)/2
    have hm : mid<xs.length := by omega
    if before xs[mid] then bisect before xs (mid+1) hi hh
    else bisect before xs lo mid (by omega)
  else lo
termination_by hi-lo

/-- A place that splits a list by a test: what is below it passes and the rest
does not. -/
structure Splits {α : Type} (before : α → Bool) (xs : List α) (place : ℕ) : Prop where
  /-- The place is in the list or right behind it. -/
  le_length : place≤xs.length
  /-- Everything below the place passes. -/
  below : ∀ i, ∀ h : i<xs.length, i<place → before xs[i]=true
  /-- Nothing else does. -/
  beyond : ∀ i, ∀ h : i<xs.length, place ≤ i → before xs[i]=false

/-- The loop keeps the interval around the place: once everything below its
lower end passes and nothing from its upper end on, it ends at the split. -/
theorem bisect_splits {α : Type} {before : α → Bool} {xs : List α}
    (hmono : ∀ i j, ∀ hi : i<xs.length, ∀ hj : j<xs.length, i≤j →
      before xs[j]=true → before xs[i]=true) {lo hi : ℕ} (hh : hi≤xs.length) (hle : lo≤hi)
    (hbelow : ∀ i, ∀ h : i<xs.length, i<lo → before xs[i]=true)
    (hbeyond : ∀ i, ∀ h : i<xs.length, hi ≤ i → before xs[i]=false) :
    Splits before xs (bisect before xs lo hi hh) := by
  fun_induction bisect before xs lo hi hh with
  | case1 lo hi hh h mid hm hb ih =>
    refine ih (by omega) ?_ hbeyond
    intro i hi' hlt
    exact hmono i mid hi' hm (by omega) hb
  | case2 lo hi hh h mid hm hb ih =>
    refine ih (by omega) hbelow ?_
    intro i hi' hle'
    by_contra hpass
    exact hb (hmono mid i hm hi' hle' (by simpa using hpass))
  | case3 lo hi hh h =>
    refine ⟨hle.trans hh,hbelow,?_⟩
    intro i hi' hle'
    exact hbeyond i hi' (by omega)

/-- Without the item at a place that holds it, the rest is left. -/
theorem cons_eraseIdx_perm {α : Type} {xs : List α} {x : α} {i : ℕ} (h : xs[i]?=some x) :
    (x :: xs.eraseIdx i).Perm xs := by
  obtain ⟨hi,rfl⟩ := List.getElem?_eq_some_iff.mp h
  exact List.getElem_cons_eraseIdx_perm hi

/-- An insertion at a place is a list in three pieces. -/
theorem insertIdx_eq_append {α : Type} {xs : List α} {x : α} {i : ℕ} (h : i≤xs.length) :
    xs.insertIdx i x=xs.take i++x :: xs.drop i := by
  induction xs generalizing i with
  | nil =>
    obtain rfl := Nat.le_zero.mp h
    rfl
  | cons y ys ih =>
    cases i with
    | zero => rfl
    | succ i =>
      rw [List.insertIdx_succ_cons,ih (Nat.le_of_succ_le_succ h)]
      rfl

section Ordered

variable {α : Type} [LinearOrder α] {xs : List α} {x : α}

/-- `bisect_left`. -/
def bisectLeft (xs : List α) (x : α) : ℕ :=
  bisect (fun y => decide (y < x)) xs 0 xs.length le_rfl

/-- `bisect_right`. -/
def bisectRight (xs : List α) (x : α) : ℕ :=
  bisect (fun y => !decide (x < y)) xs 0 xs.length le_rfl

/-- `insort`: insertion at the rightmost place. -/
def insort (xs : List α) (x : α) : List α := xs.insertIdx (bisectRight xs x) x

/-- A sorted list grows with its index. -/
theorem getElem_le_getElem (hs : xs.Pairwise (·≤·)) {i j : ℕ} (hi : i<xs.length)
    (hj : j<xs.length) (h : i≤j) : xs[i]≤xs[j] := by
  rcases Nat.lt_or_eq_of_le h with hlt|rfl
  · exact List.pairwise_iff_getElem.mp hs i j hi hj hlt
  · exact le_rfl

/-- The leftmost place: smaller items below it and no smaller one beyond. -/
theorem bisectLeft_splits (hs : xs.Pairwise (·≤·)) :
    Splits (fun y => decide (y < x)) xs (bisectLeft xs x) := by
  refine bisect_splits ?_ le_rfl (Nat.zero_le _) ?_ ?_
  · intro i j hi hj hij hlt
    simp only [decide_eq_true_eq] at hlt ⊢
    exact (getElem_le_getElem hs hi hj hij).trans_lt hlt
  · intro i _ hlt
    omega
  · intro i h hle
    omega

/-- The rightmost place: no greater item below it and greater ones beyond. -/
theorem bisectRight_splits (hs : xs.Pairwise (·≤·)) :
    Splits (fun y => !decide (x < y)) xs (bisectRight xs x) := by
  refine bisect_splits ?_ le_rfl (Nat.zero_le _) ?_ ?_
  · intro i j hi hj hij hle
    simp only [Bool.not_eq_true',decide_eq_false_iff_not,not_lt] at hle ⊢
    exact (getElem_le_getElem hs hi hj hij).trans hle
  · intro i _ hlt
    omega
  · intro i h hle
    omega

/-- The leftmost place of an item of the list holds that item. -/
theorem getElem?_bisectLeft (hs : xs.Pairwise (·≤·)) (hx : x∈xs) :
    xs[bisectLeft xs x]?=some x := by
  obtain ⟨i,hi,rfl⟩ := List.mem_iff_getElem.mp hx
  have hp := bisectLeft_splits hs (x:=xs[i])
  have hle : bisectLeft xs xs[i] ≤ i := by
    by_contra hlt
    have hb := hp.below i hi (by omega)
    simp only [lt_self_iff_false,decide_false,Bool.false_eq_true] at hb
  have hlt : bisectLeft xs xs[i]<xs.length := by omega
  rw [List.getElem?_eq_getElem hlt]
  have hb := hp.beyond _ hlt le_rfl
  simp only [decide_eq_false_iff_not,not_lt] at hb
  rw [le_antisymm (getElem_le_getElem hs hlt hi hle) hb]

/-- What is left of a sorted list is sorted. -/
theorem eraseIdx_sorted (hs : xs.Pairwise (·≤·)) (i : ℕ) : (xs.eraseIdx i).Pairwise (·≤·) :=
  hs.sublist (List.eraseIdx_sublist xs i)

/-- An insertion adds the item. -/
theorem insort_perm (hs : xs.Pairwise (·≤·)) (x : α) : (insort xs x).Perm (x :: xs) :=
  List.perm_insertIdx x xs (bisectRight_splits hs).le_length

/-- A sorted list stays sorted. -/
theorem insort_sorted (hs : xs.Pairwise (·≤·)) (x : α) : (insort xs x).Pairwise (·≤·) := by
  have hp := bisectRight_splits hs (x:=x)
  have hlow : ∀ y∈xs.take (bisectRight xs x), y≤x := by
    intro y hy
    obtain ⟨i,hi,rfl⟩ := List.mem_iff_getElem.mp hy
    rw [List.length_take] at hi
    have hb := hp.below i (by omega) (by omega)
    simpa using hb
  have hhigh : ∀ y∈xs.drop (bisectRight xs x), x≤y := by
    intro y hy
    obtain ⟨i,hi,rfl⟩ := List.mem_iff_getElem.mp hy
    rw [List.length_drop] at hi
    have hb := hp.beyond (bisectRight xs x+i) (by omega) (by omega)
    rw [List.getElem_drop]
    exact le_of_lt (by simpa using hb)
  rw [insort,insertIdx_eq_append hp.le_length,List.pairwise_append,List.pairwise_cons]
  refine ⟨hs.sublist (List.take_sublist _ _),⟨hhigh,hs.sublist (List.drop_sublist _ _)⟩,?_⟩
  intro y hy z hz
  rcases List.mem_cons.mp hz with rfl|hz
  · exact hlow y hy
  · exact (hlow y hy).trans (hhigh z hz)

end Ordered

end CudaForge.BisectedLists
