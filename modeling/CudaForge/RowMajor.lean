import Mathlib.Tactic

/-!
# Places in row-major order

Rows of equal width that lie one behind another: a place determines its row and
its column, and places of so many rows are below the rows' total width.
-/

namespace CudaForge.RowMajor

variable {width row col row' col' : ℕ}

/-- The row of a place. -/
theorem place_div (hcol : col<width) : (row*width+col)/width=row := by
  rw [Nat.add_comm,Nat.add_mul_div_right _ _ (Nat.zero_lt_of_lt hcol),Nat.div_eq_of_lt hcol,
    Nat.zero_add]

/-- The column of a place. -/
theorem place_mod (hcol : col<width) : (row*width+col)%width=col := by
  rw [Nat.add_comm,Nat.add_mul_mod_self_right,Nat.mod_eq_of_lt hcol]

/-- A place has one row and one column. -/
theorem place_inj (hcol : col<width) (hcol' : col'<width)
    (h : row*width+col=row'*width+col') : row=row' ∧ col=col' := by
  have hr := congrArg (·/width) h
  have hc := congrArg (·%width) h
  simp only [place_div hcol,place_div hcol',place_mod hcol,place_mod hcol'] at hr hc
  exact ⟨hr,hc⟩

/-- The places of so many rows. -/
theorem place_lt {rows : ℕ} (hrow : row<rows) (hcol : col<width) : row*width+col<rows*width := by
  have h := Nat.mul_le_mul_right width (Nat.succ_le_of_lt hrow)
  rw [Nat.succ_mul] at h
  omega

/-- Rows one behind another, place by place. -/
theorem flatMap_rows {α : Type} (f : ℕ → List α) (rows width : ℕ) :
    (List.range rows).flatMap (fun row =>
      (List.range width).flatMap (fun col => f (row*width+col)))=
        (List.range (rows*width)).flatMap f := by
  induction rows with
  | zero => rw [Nat.zero_mul]; rfl
  | succ rows ih =>
    rw [List.range_succ,List.flatMap_append,ih,Nat.succ_mul,List.range_add,List.flatMap_append,
      List.flatMap_map,List.flatMap_singleton]

end CudaForge.RowMajor
