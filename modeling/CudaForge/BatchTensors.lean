import Mathlib.Tactic

/-!
# Tensors of rows

A tensor with a batch dimension and a length: rows of one width. Rows are
padded, stacked, set side by side and selected by index. A mask row of zeros
and ones says which entries of a row are visible, so what padding in front of
both adds is not seen.
-/

namespace CudaForge.BatchTensors

/-- Rows of one width. -/
@[ext]
structure Tensor (α : Type) where
  /-- The rows, along the batch dimension. -/
  rows : List (List α)
  /-- The length of a row. -/
  width : ℕ
  uniform : ∀ row∈rows, row.length=width

variable {α β : Type}

namespace Tensor

/-- How many rows. -/
def batch (t : Tensor α) : ℕ := t.rows.length

/-- A row, empty beyond the last one. -/
def row (t : Tensor α) (index : ℕ) : List α := t.rows[index]?.getD []

/-- One column, a row for each entry. -/
def column (entries : List α) : Tensor α where
  rows := entries.map ([·])
  width := 1
  uniform := by
    intro row h
    obtain ⟨_,_,rfl⟩ := List.mem_map.mp h
    rfl

/-- The same shape, with a function of rows that keeps their length. -/
def mapRows (t : Tensor α) (f : List α → List β) (hf : ∀ row, (f row).length=row.length) :
    Tensor β where
  rows := t.rows.map f
  width := t.width
  uniform := by
    intro row h
    obtain ⟨before,hb,rfl⟩ := List.mem_map.mp h
    rw [hf,t.uniform before hb]

/-- So many zeros in front of each row. -/
def padZeros [Zero α] (t : Tensor α) (count : ℕ) : Tensor α where
  rows := t.rows.map (List.replicate count 0++·)
  width := count+t.width
  uniform := by
    intro row h
    obtain ⟨before,hb,rfl⟩ := List.mem_map.mp h
    rw [List.length_append,List.length_replicate,t.uniform before hb]

/-- The first columns. -/
def firstColumns (t : Tensor α) (count : ℕ) : Tensor α where
  rows := t.rows.map (List.take count)
  width := min count t.width
  uniform := by
    intro row h
    obtain ⟨before,hb,rfl⟩ := List.mem_map.mp h
    rw [List.length_take,t.uniform before hb]

/-- The last columns. -/
def lastColumns (t : Tensor α) (count : ℕ) : Tensor α where
  rows := t.rows.map (List.drop (t.width-count))
  width := t.width-(t.width-count)
  uniform := by
    intro row h
    obtain ⟨before,hb,rfl⟩ := List.mem_map.mp h
    rw [List.length_drop,t.uniform before hb]

/-- The same shape, all ones. -/
def onesLike [One α] (t : Tensor β) : Tensor α where
  rows := t.rows.map (fun row => List.replicate row.length 1)
  width := t.width
  uniform := by
    intro row h
    obtain ⟨before,hb,rfl⟩ := List.mem_map.mp h
    rw [List.length_replicate,t.uniform before hb]

/-- One below the other; their widths must agree. -/
def stack (t u : Tensor α) : Option (Tensor α) :=
  if h : t.width=u.width then
    some ⟨t.rows++u.rows,t.width,fun row hr =>
      (List.mem_append.mp hr).elim (t.uniform row) (fun hu => (u.uniform row hu).trans h.symm)⟩
  else none

/-- Side by side; their batches must agree. -/
def beside (t u : Tensor α) : Option (Tensor α) :=
  if t.batch=u.batch then
    some ⟨(t.rows.zip u.rows).map (fun pair => pair.1++pair.2),t.width+u.width,by
      intro row h
      obtain ⟨pair,hp,rfl⟩ := List.mem_map.mp h
      rw [List.length_append,t.uniform _ (List.of_mem_zip hp).1,
        u.uniform _ (List.of_mem_zip hp).2]⟩
  else none

/-- The rows at the given indices, in that order; each must exist. -/
def select (t : Tensor α) (indices : List ℕ) : Option (Tensor α) :=
  if h : ∀ index∈indices, index<t.batch then
    some ⟨indices.map t.row,t.width,by
      intro row hr
      obtain ⟨index,hi,rfl⟩ := List.mem_map.mp hr
      have hb : index<t.rows.length := h index hi
      rw [Tensor.row,List.getElem?_eq_getElem hb,Option.getD_some]
      exact t.uniform _ (List.getElem_mem hb)⟩
  else none

end Tensor

/-- The entries of a row at which the mask is not zero. -/
def visible : List ℕ → List α → List α
  | 0::mask,_::row => visible mask row
  | (_+1)::mask,entry::row => entry::visible mask row
  | _,_ => []

/-- A mask row that hides so many entries and shows the rest. -/
def leftMask (hidden shown : ℕ) : List ℕ := List.replicate hidden 0++List.replicate shown 1

/-- Running sums, from a first value. -/
def cumulative [Add α] (total : α) : List α → List α
  | [] => []
  | entry::row => (total+entry)::cumulative (total+entry) row

/-- The indices of the entries that satisfy a predicate. -/
def positionsOf (p : α → Bool) (entries : List α) : List ℕ :=
  (entries.zipIdx.filter (fun pair => p pair.1)).map Prod.snd

namespace Tensor

variable {t u : Tensor α} {index count : ℕ}

@[simp] theorem rows_column (entries : List α) : (column entries).rows=entries.map ([·]) := rfl

@[simp] theorem rows_mapRows (f : List α → List β) (hf : ∀ row, (f row).length=row.length) :
    (t.mapRows f hf).rows=t.rows.map f := rfl

@[simp] theorem rows_padZeros [Zero α] :
    (t.padZeros count).rows=t.rows.map (List.replicate count 0++·) := rfl

@[simp] theorem rows_firstColumns : (t.firstColumns count).rows=t.rows.map (List.take count) := rfl

@[simp] theorem rows_lastColumns :
    (t.lastColumns count).rows=t.rows.map (List.drop (t.width-count)) := rfl

@[simp] theorem rows_onesLike [One β] :
    (t.onesLike : Tensor β).rows=t.rows.map (fun row => List.replicate row.length 1) := rfl

/-- A row that exists has the width of the tensor. -/
theorem row_length (h : index<t.batch) : (t.row index).length=t.width := by
  have hb : index<t.rows.length := h
  rw [row,List.getElem?_eq_getElem hb,Option.getD_some]
  exact t.uniform _ (List.getElem_mem hb)

/-- Padding adds no row. -/
theorem batch_padZeros [Zero α] : (t.padZeros count).batch=t.batch := List.length_map _

/-- A padded row. -/
theorem row_padZeros [Zero α] (h : index<t.batch) :
    (t.padZeros count).row index=List.replicate count 0++t.row index := by
  have hb : index<t.rows.length := h
  rw [row,row,padZeros,List.getElem?_map,List.getElem?_eq_getElem hb]
  rfl

/-- Padding by nothing changes nothing. -/
theorem padZeros_zero [Zero α] : t.padZeros 0=t := by
  refine Tensor.ext ?_ (Nat.zero_add _)
  simp only [padZeros,List.replicate_zero,List.nil_append,List.map_id']

/-- Tensors of one width can be stacked. -/
theorem stack_eq (h : t.width=u.width) :
    ∃ s, t.stack u=some s ∧ s.rows=t.rows++u.rows ∧ s.width=t.width :=
  ⟨_,dif_pos h,rfl,rfl⟩

/-- The upper rows of a stack. -/
theorem row_stack_left {s : Tensor α} (hs : s.rows=t.rows++u.rows) (h : index<t.batch) :
    s.row index=t.row index := by
  rw [row,row,hs,List.getElem?_append_left h]

/-- The lower rows of a stack. -/
theorem row_stack_right {s : Tensor α} (hs : s.rows=t.rows++u.rows) (h : t.batch ≤ index) :
    s.row index=u.row (index-t.batch) := by
  rw [row,row,hs,List.getElem?_append_right h]
  rfl

/-- Tensors of one batch can be set side by side. -/
theorem beside_eq (h : t.batch=u.batch) :
    ∃ s, t.beside u=some s ∧ s.rows=(t.rows.zip u.rows).map (fun pair => pair.1++pair.2) ∧
      s.width=t.width+u.width :=
  ⟨_,if_pos h,rfl,rfl⟩

/-- A row of two tensors side by side. -/
theorem row_beside {s : Tensor α} (hb : t.batch=u.batch)
    (hs : s.rows=(t.rows.zip u.rows).map (fun pair => pair.1++pair.2)) (h : index<t.batch) :
    s.row index=t.row index++u.row index := by
  have ht : index<t.rows.length := h
  have hu : index<u.rows.length := h.trans_eq hb
  rw [row,row,row,hs,List.getElem?_map,List.getElem?_eq_getElem ht,List.getElem?_eq_getElem hu,
    List.getElem?_eq_getElem (by rw [List.length_zip]; exact lt_min ht hu),List.getElem_zip]
  rfl

/-- Rows that exist can be selected. -/
theorem select_eq {indices : List ℕ} (h : ∀ index∈indices, index<t.batch) :
    ∃ s, t.select indices=some s ∧ s.rows=indices.map t.row ∧ s.width=t.width :=
  ⟨_,dif_pos h,rfl,rfl⟩

/-- A selected row. -/
theorem row_select {s : Tensor α} {indices : List ℕ} (hs : s.rows=indices.map t.row)
    (h : index < indices.length) : s.row index=t.row indices[index] := by
  rw [row,hs,List.getElem?_map,List.getElem?_eq_getElem h]
  rfl

end Tensor

/-- Masks and rows set side by side are seen side by side. -/
theorem visible_append {mask : List ℕ} {row : List α} (h : mask.length=row.length)
    (mask' : List ℕ) (row' : List α) :
    visible (mask++mask') (row++row')=visible mask row++visible mask' row' := by
  induction mask generalizing row with
  | nil =>
    rw [List.length_eq_zero_iff.mp h.symm]
    rfl
  | cons bit mask ih =>
    cases row with
    | nil => exact absurd h (Nat.succ_ne_zero _)
    | cons entry row =>
      have hrest := ih (Nat.succ.inj h)
      cases bit with
      | zero => simpa only [List.cons_append,visible] using hrest
      | succ bit => simpa only [List.cons_append,visible,List.cons.injEq,true_and] using hrest

/-- What is seen of a mapped row. -/
theorem visible_map (f : α → β) (mask : List ℕ) (row : List α) :
    visible mask (row.map f)=(visible mask row).map f := by
  induction mask generalizing row with
  | nil => rfl
  | cons bit mask ih =>
    cases row with
    | nil => cases bit <;> rfl
    | cons entry row =>
      cases bit with
      | zero => exact ih row
      | succ bit => simp only [List.map_cons,visible,ih]

/-- Behind zeros nothing is seen. -/
theorem visible_zeros (row : List α) : visible (List.replicate row.length 0) row=[] := by
  induction row with
  | nil => rfl
  | cons entry row ih => exact ih

/-- Behind ones everything is seen. -/
theorem visible_ones (row : List α) : visible (List.replicate row.length 1) row=row := by
  induction row with
  | nil => rfl
  | cons entry row ih =>
    rw [List.length_cons,List.replicate_succ,visible,ih]

/-- Padding in front of a mask and a row is not seen. -/
theorem visible_padded (count : ℕ) (mask : List ℕ) (pad row : List α) (h : pad.length=count) :
    visible (List.replicate count 0++mask) (pad++row)=visible mask row := by
  rw [visible_append (by rw [List.length_replicate,h]),←h,visible_zeros,List.nil_append]

/-- A left mask shows the entries behind the ones it hides. -/
theorem visible_leftMask (pad row : List α) :
    visible (leftMask pad.length row.length) (pad++row)=row := by
  rw [leftMask,visible_padded _ _ _ _ rfl,visible_ones]

theorem length_leftMask (hidden shown : ℕ) : (leftMask hidden shown).length=hidden+shown := by
  rw [leftMask,List.length_append,List.length_replicate,List.length_replicate]

/-- The sum of a left mask is the number of entries it shows. -/
theorem sum_leftMask (hidden shown : ℕ) : (leftMask hidden shown).sum=shown := by
  rw [leftMask,List.sum_append,List.sum_replicate,List.sum_replicate,smul_zero,zero_add,
    smul_eq_mul,mul_one]

/-- More zeros in front hide more. -/
theorem zeros_leftMask (count hidden shown : ℕ) :
    List.replicate count 0++leftMask hidden shown=leftMask (count+hidden) shown := by
  rw [leftMask,leftMask,←List.append_assoc,List.replicate_append_replicate]

/-- One more one shows one more entry. -/
theorem leftMask_one (hidden shown : ℕ) :
    leftMask hidden shown++[1]=leftMask hidden (shown+1) := by
  rw [leftMask,leftMask,List.append_assoc,List.replicate_succ']

theorem cumulative_append (total : ℕ) (row row' : List ℕ) :
    cumulative total (row++row')=cumulative total row++cumulative (total+row.sum) row' := by
  induction row generalizing total with
  | nil => rfl
  | cons entry row ih => rw [List.cons_append,cumulative,cumulative,ih,List.sum_cons,
      List.cons_append,Nat.add_assoc]

theorem length_cumulative [Add α] (total : α) (row : List α) :
    (cumulative total row).length=row.length := by
  induction row generalizing total with
  | nil => rfl
  | cons entry row ih => rw [cumulative,List.length_cons,List.length_cons,ih]

/-- Over zeros the running sum stays. -/
theorem cumulative_zeros (total count : ℕ) :
    cumulative total (List.replicate count 0)=List.replicate count total := by
  induction count with
  | zero => rfl
  | succ count ih => rw [List.replicate_succ,List.replicate_succ,cumulative,Nat.add_zero,ih]

/-- Over ones the running sum counts. -/
theorem cumulative_ones (total count : ℕ) :
    cumulative total (List.replicate count 1)=(List.range count).map (total+1+·) := by
  induction count generalizing total with
  | zero => rfl
  | succ count ih =>
    rw [List.replicate_succ,cumulative,ih,List.range_succ_eq_map,List.map_cons,List.map_map]
    refine congrArg (List.cons _) (List.map_congr_left ?_)
    intro n _
    simp only [Function.comp]
    omega

/-- The entries at the positions of a predicate are the ones that satisfy it. -/
theorem map_positionsOf (p : α → Bool) (entries : List α) (f : ℕ → β) (g : α → β)
    (h : ∀ index, ∀ hi : index<entries.length, f index=g entries[index]) :
    (positionsOf p entries).map f=(entries.filter p).map g := by
  have hzip : ∀ pair∈entries.zipIdx, f pair.2=g pair.1 := by
    intro pair hp
    obtain ⟨hlt,he⟩ := List.getElem?_eq_some_iff.mp (List.mem_zipIdx_iff_getElem?.mp hp)
    rw [h _ hlt,he]
  have hmap : (entries.zipIdx.filter (fun pair => p pair.1)).map (fun pair => g pair.1)=
      (entries.filter p).map g := by
    have hfst : entries=entries.zipIdx.map Prod.fst := (List.zipIdx_map_fst 0 entries).symm
    conv_rhs => rw [hfst,List.filter_map,List.map_map]
    rfl
  rw [positionsOf,List.map_map,←hmap]
  exact List.map_congr_left (fun pair hp => hzip pair (List.mem_of_mem_filter hp))

/-- Positions are taken through a map. -/
theorem positionsOf_map (p : β → Bool) (f : α → β) (entries : List α) :
    positionsOf p (entries.map f)=positionsOf (fun entry => p (f entry)) entries := by
  rw [positionsOf,positionsOf,List.zipIdx_map,List.filter_map,List.map_map]
  rfl

/-- There are as many positions as entries that satisfy the predicate. -/
theorem length_positionsOf (p : α → Bool) (entries : List α) :
    (positionsOf p entries).length=(entries.filter p).length := by
  have h := congrArg List.length (map_positionsOf p entries (fun _ => ()) (fun _ => ())
    (fun _ _ => rfl))
  rwa [List.length_map,List.length_map] at h

/-- Positions are indices. -/
theorem lt_of_mem_positionsOf {p : α → Bool} {entries : List α} {index : ℕ}
    (h : index∈positionsOf p entries) : index<entries.length := by
  obtain ⟨pair,hp,rfl⟩ := List.mem_map.mp h
  exact (List.getElem?_eq_some_iff.mp
    (List.mem_zipIdx_iff_getElem?.mp (List.mem_of_mem_filter hp))).1

end CudaForge.BatchTensors
