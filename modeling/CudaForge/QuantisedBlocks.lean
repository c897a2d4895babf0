import CudaForge.BarrierPrograms
import CudaForge.SoftmaxKernels
import CudaForge.SymmetricQuantisation
import CudaForge.WrappedIntegers

/-!
# Quantisation in blocks of sixty-four

The reference functions for INT8 quantisation, on flat tensors of exact rationals,
and the three kernels. A flat tensor is padded with zeros to whole blocks, and each
block has a scale of its own. The kernels store what the reference returns, in any order
of their blocks and threads, as long as the length can be rounded up in an `int`; the
error is at most half of the block's scale, and quantising the restored tensor gives
the same integers.
-/

namespace CudaForge.QuantisedBlocks

open BarrierPrograms BlockReductions SoftmaxKernels SymmetricQuantisation WrappedIntegers

/-- `kQuantBlockSize`, and `QUANT_BLOCK_SIZE`. -/
def quantBlockSize : ℕ := 64

section Reference

/-- How many zeros go behind a flat tensor. -/
def padding (numel : ℕ) : ℕ := ((-(numel : ℤ))%quantBlockSize).toNat

/-- A flat tensor with its zeros. -/
def pad (flat : List ℚ) : List ℚ := flat++List.replicate (padding flat.length) 0

/-- `view(-1, QUANT_BLOCK_SIZE)`. -/
def view (flat : List ℚ) : List (List ℚ) :=
  (List.range (flat.length/quantBlockSize)).map (fun block =>
    (flat.drop (block*quantBlockSize)).take quantBlockSize)

/-- `abs().amax()` of a row. -/
def amax (row : List ℚ) : ℚ := (row.map (fun value => |value|)).max?.getD 0

/-- `_quantize_int8_reference`. -/
def quantizeReference (flat : List ℚ) : List ℤ×List ℚ :=
  let grouped := view (pad flat)
  let scales := (grouped.map (fun row => amax row/127)).map
    (fun scale => if 0<scale then scale else 1)
  let quantised := List.zipWith (fun row scale =>
    row.map (fun value => min (max (roundHalfEven (value/scale)) (-127)) 127)) grouped scales
  (quantised.flatten.take flat.length,scales)

/-- `_dequantize_int8_reference`. -/
def dequantizeReference (quantised : List ℤ) (scales : List ℚ) : List ℚ :=
  let grouped := view (pad (quantised.map (fun code : ℤ => (code : ℚ))))
  (List.zipWith (fun row scale => row.map (fun value => value*scale)) grouped scales).flatten.take
    quantised.length

end Reference

section Kernels

/-- `quant_scale_count`. -/
def quantScaleCount (count : ℤ) : ℤ := if count≤0 then 0 else ceilDivInt count quantBlockSize

/-- What a grid of so many blocks leaves: the device refuses a size below one. -/
def launched {A : Type} (grid : ℤ) (after : A) : Option A := if 0<grid then some after else none

/-- `quantize_int8`: what a thread of a block stores to the output and to the
scales. -/
def quantizeInt8 (input : ℕ → ℚ) (count : ℕ) (shared : ℕ → ℚ) (block thread : ℕ) :
    List (ℕ×ℤ)×List (ℕ×ℚ) :=
  let index := fun thread => block*quantBlockSize+thread
  let value := fun thread => if index thread<count then input (index thread) else 0
  let absmax := (blockReduceMax quantBlockSize (fun thread => |value thread|) shared 0).1
  let scale := if 0<absmax thread then absmax thread/127 else 1
  (if index thread<count then
      [(index thread,min (max (roundHalfEven (value thread/scale)) (-127)) 127)] else [],
    if thread=0 then [(block,scale)] else [])

/-- `dequantize_int8`: what a thread of a block stores. -/
def dequantizeInt8 (input : ℕ → ℤ) (scales : ℕ → ℚ) (count block thread : ℕ) : List (ℕ×ℚ) :=
  let index := block*defaultBlockSize+thread
  if count ≤ index then [] else [(index,input index*scales (index/quantBlockSize))]

/-- `quantize_dequantize`: what a thread of a block stores. -/
def quantizeDequantize (input : ℕ → ℚ) (count : ℕ) (shared : ℕ → ℚ) (block thread : ℕ) :
    List (ℕ×ℚ) :=
  let index := fun thread => block*quantBlockSize+thread
  let value := fun thread => if index thread<count then input (index thread) else 0
  let absmax := (blockReduceMax quantBlockSize (fun thread => |value thread|) shared 0).1
  let scale := if 0<absmax thread then absmax thread/127 else 1
  if index thread<count then
    let quantised := min (max (roundHalfEven (value thread/scale)) (-127)) 127
    [(index thread,quantised*scale)] else []

/-- What the threads of a grid store, one after another. -/
def gridStores {S : Type} {grid blockDim : ℕ} (schedule : Schedule grid blockDim)
    (kernel : ℕ → ℕ → List S) : List S :=
  schedule.blocks.flatMap (fun block => (schedule.threads block 0).flatMap (kernel block))

/-- `launch_quantize_int8`: the output and the scales behind it. -/
def launchQuantizeInt8 (count : ℤ)
    (schedule : Schedule (quantScaleCount count).toNat quantBlockSize) (shared : ℕ → ℕ → ℚ)
    (input : ℕ → ℚ) (output : ℕ → ℤ) (scales : ℕ → ℚ) : Option ((ℕ → ℤ)×(ℕ → ℚ)) :=
  if count≤0 then some (output,scales)
  else
    let stores := fun block thread => quantizeInt8 input count.toNat (shared block) block thread
    launched (quantScaleCount count)
      (storeAll (gridStores schedule (fun block thread => (stores block thread).1)) output,
        storeAll (gridStores schedule (fun block thread => (stores block thread).2)) scales)

/-- `launch_dequantize_int8`: the output behind it. -/
def launchDequantizeInt8 (count : ℤ)
    (schedule : Schedule (ceilDivInt count defaultBlockSize).toNat defaultBlockSize)
    (input : ℕ → ℤ) (scales : ℕ → ℚ) (output : ℕ → ℚ) : Option (ℕ → ℚ) :=
  if count≤0 then some output
  else launched (ceilDivInt count defaultBlockSize)
    (storeAll (gridStores schedule (dequantizeInt8 input scales count.toNat)) output)

/-- `launch_quantize_dequantize`: the output behind it. -/
def launchQuantizeDequantize (count : ℤ)
    (schedule : Schedule (quantScaleCount count).toNat quantBlockSize) (shared : ℕ → ℕ → ℚ)
    (input : ℕ → ℚ) (output : ℕ → ℚ) : Option (ℕ → ℚ) :=
  if count≤0 then some output
  else launched (quantScaleCount count) (storeAll (gridStores schedule (fun block =>
    quantizeDequantize input count.toNat (shared block) block)) output)

end Kernels

section Blocks

variable {flat : List ℚ} {block place : ℕ}

/-- An entry of a flat tensor, and zeros behind it. -/
def entry (flat : List ℚ) (place : ℕ) : ℚ := flat.getD place 0

/-- A block of a flat tensor. -/
def blockOf (flat : List ℚ) (block : ℕ) : List ℚ :=
  (List.range quantBlockSize).map (fun place => entry flat (block*quantBlockSize+place))

/-- The scale of a block. -/
def scaleAt (flat : List ℚ) (block : ℕ) : ℚ := scaleOf 127 (amax (blockOf flat block))

/-- The integer that is stored for an entry. -/
def codeAt (flat : List ℚ) (place : ℕ) : ℤ :=
  codeOf 127 (scaleAt flat (place/quantBlockSize)) (entry flat place)

/-- How many blocks a flat tensor has. -/
def blockCount (numel : ℕ) : ℕ := ceilDiv numel quantBlockSize

/-- Behind the tensor there are zeros. -/
theorem entry_outside (h : flat.length≤place) : entry flat place=0 := by
  rw [entry,List.getD_eq_getElem?_getD,List.getElem?_eq_none h,Option.getD_none]

/-- An entry of a list that is told by a function. -/
theorem getElem?_map_range {α : Type} (f : ℕ → α) (n i : ℕ) :
    ((List.range n).map f)[i]?=if i<n then some (f i) else none := by
  rw [List.getElem?_map]
  split
  · next hlt => rw [List.getElem?_range hlt,Option.map_some]
  · next hge =>
    rw [List.getElem?_eq_none (by rw [List.length_range]; exact Nat.le_of_not_lt hge),
      Option.map_none]

/-- Within the tensor there are its entries. -/
theorem getElem?_entry (h : place < flat.length) : flat[place]?=some (entry flat place) := by
  rw [entry,List.getD_eq_getElem?_getD,List.getElem?_eq_getElem h,Option.getD_some]

/-- The blocks cover the tensor. -/
theorem blockCount_covers (numel : ℕ) : numel≤blockCount numel*quantBlockSize := by
  rw [blockCount,ceilDiv,quantBlockSize]
  omega

/-- An entry is in one of the blocks. -/
theorem block_lt {numel : ℕ} (h : place<numel) : place/quantBlockSize<blockCount numel :=
  Nat.div_lt_of_lt_mul (Nat.mul_comm _ _ ▸ h.trans_le (blockCount_covers numel))

/-- A block begins within the tensor. -/
theorem lt_blockCount {numel : ℕ} : block<blockCount numel ↔ block*quantBlockSize<numel := by
  rw [blockCount,ceilDiv,quantBlockSize]
  omega

/-- The zeros complete the last block. -/
theorem pad_length (flat : List ℚ) :
    (pad flat).length=blockCount flat.length*quantBlockSize := by
  rw [pad,List.length_append,List.length_replicate,padding,blockCount,ceilDiv,quantBlockSize]
  omega

/-- A padded tensor has its entries, and zeros. -/
theorem pad_getElem? (h : place<blockCount flat.length*quantBlockSize) :
    (pad flat)[place]?=some (entry flat place) := by
  rw [←pad_length] at h
  by_cases hin : place < flat.length
  · rw [pad,List.getElem?_append_left hin,getElem?_entry hin]
  · have hout := Nat.le_of_not_lt hin
    rw [pad,List.length_append,List.length_replicate] at h
    rw [pad,List.getElem?_append_right hout,List.getElem?_replicate,if_pos (by omega),
      entry_outside hout]

/-- A row of the padded tensor is one of its blocks. -/
theorem view_pad (flat : List ℚ) :
    view (pad flat)=(List.range (blockCount flat.length)).map (blockOf flat) := by
  have hpos : 0<quantBlockSize := by decide
  rw [view,pad_length,Nat.mul_div_cancel _ hpos]
  refine List.map_congr_left (fun block hm => List.ext_getElem? (fun place => ?_))
  have hb := List.mem_range.mp hm
  rw [List.getElem?_take,blockOf,getElem?_map_range]
  split
  · next hlt => rw [List.getElem?_drop,pad_getElem? (RowMajor.place_lt hb hlt)]
  · rfl

/-- Rows of entries, one behind another. -/
theorem flatten_rows {α : Type} (f : ℕ → α) (rows width : ℕ) :
    ((List.range rows).map (fun row =>
      (List.range width).map (fun col => f (row*width+col)))).flatten=
        (List.range (rows*width)).map f := by
  rw [←List.flatMap_def,List.map_eq_flatMap,←RowMajor.flatMap_rows (fun i => [f i])]
  simp only [List.map_eq_flatMap]

/-- What the blocks give, cut to the tensor's length. -/
theorem take_blocks {α : Type} (f : ℕ → ℕ → α) (numel : ℕ) :
    ((List.range (blockCount numel)).map (fun block => (List.range quantBlockSize).map
      (fun place => f block (block*quantBlockSize+place)))).flatten.take numel=
        (List.range numel).map (fun place => f (place/quantBlockSize) place) := by
  have hrows : (List.range (blockCount numel)).map (fun block => (List.range quantBlockSize).map
      (fun place => f block (block*quantBlockSize+place)))=
      (List.range (blockCount numel)).map (fun block => (List.range quantBlockSize).map
        (fun place => f ((block*quantBlockSize+place)/quantBlockSize)
          (block*quantBlockSize+place))) := by
    refine List.map_congr_left (fun block _ => List.map_congr_left (fun place hm => ?_))
    rw [RowMajor.place_div (List.mem_range.mp hm)]
  rw [hrows,flatten_rows (fun place => f (place/quantBlockSize) place),←List.map_take,
    List.take_range,Nat.min_eq_left (blockCount_covers numel)]

/-- The reference, entry by entry and block by block. -/
theorem quantizeReference_eq (flat : List ℚ) : quantizeReference flat=
    ((List.range flat.length).map (codeAt flat),
      (List.range (blockCount flat.length)).map (scaleAt flat)) := by
  have hscale : ∀ largest : ℚ, (if 0<largest/127 then largest/127 else 1)=
      scaleOf 127 largest := by
    intro largest
    have hpos : 0<largest/127 ↔ 0<largest := by
      rw [lt_div_iff₀ (by norm_num),zero_mul]
    rw [scaleOf,if_congr hpos rfl rfl]
    rfl
  have hscales : ((((List.range (blockCount flat.length)).map (blockOf flat)).map
      (fun row => amax row/127)).map (fun scale => if 0<scale then scale else 1))=
        (List.range (blockCount flat.length)).map (scaleAt flat) := by
    rw [List.map_map,List.map_map]
    exact List.map_congr_left (fun block _ => hscale (amax (blockOf flat block)))
  rw [quantizeReference,view_pad]
  rw [hscales,List.zipWith_map,List.zipWith_self]
  refine Prod.ext ?_ rfl
  have hrow : ∀ block, (blockOf flat block).map (fun value => min (max (roundHalfEven
      (value/scaleAt flat block)) (-127)) 127)=(List.range quantBlockSize).map (fun place =>
        codeOf 127 (scaleAt flat block) (entry flat (block*quantBlockSize+place))) := by
    intro block
    rw [blockOf,List.map_map]
    rfl
  simp only [hrow]
  exact take_blocks (fun block place => codeOf 127 (scaleAt flat block) (entry flat place)) _

/-- So is the reference for the way back. -/
theorem dequantizeReference_eq (numel : ℕ) (code : ℕ → ℤ) (scale : ℕ → ℚ) :
    dequantizeReference ((List.range numel).map code) ((List.range (blockCount numel)).map scale)=
      (List.range numel).map (fun place => code place*scale (place/quantBlockSize)) := by
  have hlength : (((List.range numel).map code).map (fun code : ℤ => (code : ℚ))).length=numel := by
    rw [List.length_map,List.length_map,List.length_range]
  rw [dequantizeReference,view_pad,hlength]
  rw [List.zipWith_map,List.zipWith_self,List.length_map,List.length_range]
  have hrow : ∀ block, (blockOf (((List.range numel).map code).map (fun code : ℤ => (code : ℚ)))
      block).map (fun value => value*scale block)=(List.range quantBlockSize).map (fun place =>
        entry (((List.range numel).map code).map (fun code : ℤ => (code : ℚ)))
          (block*quantBlockSize+place)*scale block) := by
    intro block
    rw [blockOf,List.map_map]
    rfl
  simp only [hrow]
  rw [take_blocks (fun block place =>
    entry (((List.range numel).map code).map (fun code : ℤ => (code : ℚ))) place*scale block)]
  refine List.map_congr_left (fun place hm => ?_)
  rw [entry,List.getD_eq_getElem?_getD,List.getElem?_map,List.getElem?_map,
    List.getElem?_range (List.mem_range.mp hm)]
  rfl

end Blocks

section Scales

variable {flat other : List ℚ} {block place : ℕ}

/-- A block has a largest magnitude. -/
theorem max?_block (flat : List ℚ) (block : ℕ) :
    ((blockOf flat block).map (fun value => |value|)).max?=some (amax (blockOf flat block)) := by
  have hne : (blockOf flat block).map (fun value => |value|)≠[] := by
    rw [blockOf,List.map_map]
    exact List.map_eq_nil_iff.not.mpr (List.range_eq_nil.not.mpr (by decide))
  obtain ⟨largest,hl⟩ := Option.ne_none_iff_exists'.mp (mt List.max?_eq_none_iff.mp hne)
  rw [amax,hl,Option.getD_some]

/-- It is told by what bounds it. -/
theorem amax_le_iff {bound : ℚ} : amax (blockOf flat block)≤bound ↔
    ∀ place < quantBlockSize, |entry flat (block*quantBlockSize+place)| ≤ bound := by
  rw [List.max?_le_iff (max?_block flat block),blockOf,List.map_map]
  constructor
  · intro h place hp
    exact h _ (List.mem_map.mpr ⟨place,List.mem_range.mpr hp,rfl⟩)
  · intro h value hm
    obtain ⟨place,hp,rfl⟩ := List.mem_map.mp hm
    exact h place (List.mem_range.mp hp)

/-- An entry is no larger than its block. -/
theorem entry_le_amax (flat : List ℚ) (place : ℕ) :
    |entry flat place| ≤ amax (blockOf flat (place/quantBlockSize)) := by
  have hlt : place%quantBlockSize<quantBlockSize := Nat.mod_lt _ (by decide)
  have h := amax_le_iff.mp (le_refl (amax (blockOf flat (place/quantBlockSize)))) _ hlt
  rwa [Nat.div_add_mod'] at h

/-- Some entry of a block is as large. -/
theorem exists_amax (flat : List ℚ) (block : ℕ) : ∃ place < quantBlockSize,
    |entry flat (block*quantBlockSize+place)|=amax (blockOf flat block) := by
  obtain ⟨value,hm,he⟩ := List.mem_map.mp (List.max?_mem (max?_block flat block))
  obtain ⟨place,hp,rfl⟩ := List.mem_map.mp hm
  exact ⟨place,List.mem_range.mp hp,he⟩

/-- A block depends on its own entries alone. -/
theorem blockOf_congr (h : ∀ place < quantBlockSize,
    flat[block*quantBlockSize+place]?=other[block*quantBlockSize+place]?) :
    blockOf flat block=blockOf other block := by
  refine List.map_congr_left (fun place hm => ?_)
  rw [entry,entry,List.getD_eq_getElem?_getD,List.getD_eq_getElem?_getD,
    h place (List.mem_range.mp hm)]

/-- The restored tensor, entry by entry. -/
def restoredAt (flat : List ℚ) (place : ℕ) : ℚ :=
  codeAt flat place*scaleAt flat (place/quantBlockSize)

/-- What comes back from a quantised tensor. -/
def restored (flat : List ℚ) : List ℚ :=
  dequantizeReference (quantizeReference flat).1 (quantizeReference flat).2

/-- What comes back, as a list. -/
theorem restored_eq (flat : List ℚ) :
    restored flat=(List.range flat.length).map (restoredAt flat) := by
  rw [restored,quantizeReference_eq]
  exact dequantizeReference_eq flat.length (codeAt flat) (scaleAt flat)

/-- It is as long as what was quantised. -/
theorem restored_length (flat : List ℚ) : (restored flat).length=flat.length := by
  rw [restored_eq,List.length_map,List.length_range]

/-- What comes back behind the tensor is zero, too. -/
theorem entry_restored (flat : List ℚ) (place : ℕ) :
    entry (restored flat) place=restoredAt flat place := by
  by_cases hin : place < flat.length
  · rw [entry,List.getD_eq_getElem?_getD,restored_eq,getElem?_map_range,if_pos hin,
      Option.getD_some]
  · have hout := Nat.le_of_not_lt hin
    rw [entry_outside (by rw [restored_length]; exact hout),restoredAt,codeAt,
      entry_outside hout,codeOf_zero (by decide),Int.cast_zero,zero_mul]

/-- What comes back is no larger than its block was. -/
theorem restoredAt_le (flat : List ℚ) (place : ℕ) :
    |restoredAt flat place| ≤ amax (blockOf flat (place/quantBlockSize)) :=
  abs_restored_le_largest (by decide) (entry_le_amax flat place)

/-- A block comes back as large as it was. -/
theorem amax_restored (flat : List ℚ) (block : ℕ) :
    amax (blockOf (restored flat) block)=amax (blockOf flat block) := by
  apply le_antisymm
  · refine amax_le_iff.mpr (fun place hp => ?_)
    have h := restoredAt_le flat (block*quantBlockSize+place)
    rwa [RowMajor.place_div hp,←entry_restored] at h
  · obtain ⟨place,hp,he⟩ := exists_amax flat block
    have hback := @restored_largest 127 _ _ (by decide) he
    have h := amax_le_iff.mp (le_refl (amax (blockOf (restored flat) block))) place hp
    rw [entry_restored,restoredAt,codeAt,scaleAt,RowMajor.place_div hp,hback] at h
    exact h

/-- Its scale is the same. -/
theorem scaleAt_restored (flat : List ℚ) (block : ℕ) :
    scaleAt (restored flat) block=scaleAt flat block := by
  rw [scaleAt,scaleAt,amax_restored]

/-- Its entries are stored as the same integers. -/
theorem codeAt_restored (flat : List ℚ) (place : ℕ) :
    codeAt (restored flat) place=codeAt flat place := by
  rw [codeAt,scaleAt_restored,entry_restored]
  exact codeOf_restored (by decide) (scaleOf_pos (by decide) _) _

/-- Quantising what comes back gives the same integers and scales. -/
theorem quantizeReference_restored (flat : List ℚ) :
    quantizeReference (restored flat)=quantizeReference flat := by
  rw [quantizeReference_eq,quantizeReference_eq,restored_length]
  refine Prod.ext ?_ ?_
  · exact List.map_congr_left (fun place _ => codeAt_restored flat place)
  · exact List.map_congr_left (fun block _ => scaleAt_restored flat block)

end Scales

section Agreement

variable {flat : List ℚ} {input : ℕ → ℚ}

/-- The memory holds the flat tensor; what lies behind it may be anything. -/
def Holds (input : ℕ → ℚ) (flat : List ℚ) : Prop := ∀ place < flat.length,
  flat[place]?=some (input place)

/-- What a thread reads. -/
theorem read_eq (h : Holds input flat) (place : ℕ) :
    (if place < flat.length then input place else 0)=entry flat place := by
  split
  · next hin => exact Option.some.inj ((h place hin).symm.trans (getElem?_entry hin))
  · next hout => exact (entry_outside (Nat.le_of_not_lt hout)).symm

/-- The block-wide maximum is that of the reference. -/
theorem blockMax_eq (h : Holds input flat) (shared : ℕ → ℚ) (block thread : ℕ) :
    (blockReduceMax quantBlockSize (fun thread =>
      |if block*quantBlockSize+thread < flat.length then input (block*quantBlockSize+thread)
        else 0|) shared 0).1 thread=amax (blockOf flat block) := by
  refine eq_of_forall_ge_iff (fun bound => ?_)
  have hsize : quantBlockSize=2*warpSize := rfl
  rw [amax_le_iff,hsize,blockReduceMax_le_iff (by decide) (by decide) _ shared
    (fun thread => abs_nonneg _)]
  refine forall₂_congr (fun place _ => ?_)
  rw [read_eq h]

/-- A thread of `quantize_int8` stores what the reference returns. -/
theorem quantizeInt8_eq (h : Holds input flat) (shared : ℕ → ℚ) (block : ℕ) {thread : ℕ}
    (ht : thread<quantBlockSize) :
    quantizeInt8 input flat.length shared block thread=
      (if block*quantBlockSize+thread < flat.length then
        [(block*quantBlockSize+thread,codeAt flat (block*quantBlockSize+thread))] else [],
      if thread=0 then [(block,scaleAt flat block)] else []) := by
  rw [quantizeInt8]
  dsimp only
  rw [blockMax_eq h,read_eq h,codeAt,RowMajor.place_div ht]
  rfl

/-- A thread of `quantize_dequantize` stores what comes back. -/
theorem quantizeDequantize_eq (h : Holds input flat) (shared : ℕ → ℚ) (block : ℕ) {thread : ℕ}
    (ht : thread<quantBlockSize) :
    quantizeDequantize input flat.length shared block thread=
      if block*quantBlockSize+thread < flat.length then
        [(block*quantBlockSize+thread,restoredAt flat (block*quantBlockSize+thread))] else [] := by
  rw [quantizeDequantize]
  dsimp only
  rw [blockMax_eq h,read_eq h,restoredAt,codeAt,RowMajor.place_div ht]
  rfl

variable {S : Type} {grid blockDim numel : ℕ} (schedule : Schedule grid blockDim)

/-- What a grid stores, thread by thread. -/
theorem mem_gridStores {kernel : ℕ → ℕ → List S} {store : S} :
    store∈gridStores schedule kernel ↔
      ∃ block < grid, ∃ thread < blockDim, store∈kernel block thread := by
  rw [gridStores,List.mem_flatMap]
  constructor
  · rintro ⟨block,hb,hm⟩
    obtain ⟨thread,ht,hm⟩ := List.mem_flatMap.mp hm
    exact ⟨block,List.mem_range.mp (schedule.blocks_perm.mem_iff.mp hb),thread,
      List.mem_range.mp ((schedule.threads_perm block 0).mem_iff.mp ht),hm⟩
  · rintro ⟨block,hb,thread,ht,hm⟩
    exact ⟨block,schedule.blocks_perm.mem_iff.mpr (List.mem_range.mpr hb),
      List.mem_flatMap.mpr ⟨thread,
        (schedule.threads_perm block 0).mem_iff.mpr (List.mem_range.mpr ht),hm⟩⟩

/-- A grid whose threads each store their own place, within so many. -/
theorem grid_stored {kernel : ℕ → ℕ → List (ℕ×S)} (value : ℕ → S) (hpos : 0<blockDim)
    (hcover : numel≤grid*blockDim)
    (hkernel : ∀ block, ∀ thread < blockDim, kernel block thread=
      if block*blockDim+thread<numel then [(block*blockDim+thread,value (block*blockDim+thread))]
      else []) (output : ℕ → S) (place : ℕ) :
    storeAll (gridStores schedule kernel) output place=
      if place<numel then value place else output place := by
  refine storeAll_region value (fun place => place<numel) (fun store => ?_)
  rw [mem_gridStores]
  constructor
  · rintro ⟨block,_,thread,ht,hm⟩
    rw [hkernel block thread ht] at hm
    split at hm
    · next hin => exact ⟨_,hin,List.mem_singleton.mp hm⟩
    · exact absurd hm List.not_mem_nil
  · rintro ⟨place,hin,rfl⟩
    have hb : place/blockDim<grid :=
      Nat.div_lt_of_lt_mul (Nat.mul_comm _ _ ▸ hin.trans_le hcover)
    refine ⟨place/blockDim,hb,place%blockDim,Nat.mod_lt _ hpos,?_⟩
    rw [hkernel _ _ (Nat.mod_lt _ hpos),Nat.div_add_mod',if_pos hin]
    exact List.mem_singleton_self _

/-- A grid whose blocks each store one value, by their first thread. -/
theorem grid_stored_first {kernel : ℕ → ℕ → List (ℕ×S)} (value : ℕ → S) (hpos : 0<blockDim)
    (hkernel : ∀ block, ∀ thread < blockDim, kernel block thread=
      if thread=0 then [(block,value block)] else []) (output : ℕ → S) (place : ℕ) :
    storeAll (gridStores schedule kernel) output place=
      if place<grid then value place else output place := by
  refine storeAll_region value (fun place => place<grid) (fun store => ?_)
  rw [mem_gridStores]
  constructor
  · rintro ⟨block,hb,thread,ht,hm⟩
    rw [hkernel block thread ht] at hm
    split at hm
    · exact ⟨block,hb,List.mem_singleton.mp hm⟩
    · exact absurd hm List.not_mem_nil
  · rintro ⟨block,hb,rfl⟩
    refine ⟨block,hb,0,hpos,?_⟩
    rw [hkernel block 0 hpos,if_pos rfl]
    exact List.mem_singleton_self _

end Agreement

section Launches

variable {flat : List ℚ} {input : ℕ → ℚ}

/-- There are as many scales as blocks, if the count can be rounded up. -/
theorem quantScaleCount_eq {numel : ℕ} (hfits : numel+63 < 2147483648) :
    quantScaleCount numel=blockCount numel := by
  have hsize : (quantBlockSize : ℤ)=64 := rfl
  rw [quantScaleCount,blockCount,ceilDiv,show quantBlockSize=64 from rfl]
  split
  · next hle =>
    obtain rfl : numel=0 := by omega
    rfl
  · rw [Nat.cast_ofNat,ceilDivInt_fits (by omega) (by decide) (by omega)]
    omega

/-- Blocks of threads cover the elements, if the count can be rounded up. -/
theorem ceilDivInt_covers {numel : ℕ} (hpos : 0<numel) (hfits : numel+255 < 2147483648) :
    0<ceilDivInt numel defaultBlockSize ∧
      numel≤(ceilDivInt numel defaultBlockSize).toNat*defaultBlockSize := by
  have hsize : (defaultBlockSize : ℤ)=256 := rfl
  rw [hsize,ceilDivInt_fits (by omega) (by decide) (by omega),
    show defaultBlockSize=256 from rfl]
  omega

/-- `launch_quantize_int8` stores what the reference returns, and nothing else. -/
theorem launchQuantizeInt8_eq (h : Holds input flat) (hfits : flat.length+63 < 2147483648)
    (schedule : Schedule (quantScaleCount flat.length).toNat quantBlockSize)
    (shared : ℕ → ℕ → ℚ) (output : ℕ → ℤ) (scales : ℕ → ℚ) :
    launchQuantizeInt8 flat.length schedule shared input output scales=
      some (fun place => if place < flat.length then codeAt flat place else output place,
        fun block => if block<blockCount flat.length then scaleAt flat block
          else scales block) := by
  have hpos : 0<quantBlockSize := by decide
  have hblocks : (quantScaleCount flat.length).toNat=blockCount flat.length := by
    rw [quantScaleCount_eq hfits,Int.toNat_natCast]
  have hcover : flat.length≤(quantScaleCount flat.length).toNat*quantBlockSize := by
    rw [hblocks]
    exact blockCount_covers _
  rw [launchQuantizeInt8]
  split
  · next hle =>
    have hnone : flat.length=0 := by omega
    have hzero : blockCount 0=0 := rfl
    rw [hnone,hzero]
    rfl
  · next hsome =>
    have hgrid : 0<quantScaleCount flat.length := by
      by_contra hneg
      rw [Int.toNat_of_nonpos (not_lt.mp hneg),Nat.zero_mul] at hcover
      omega
    dsimp only
    rw [launched,if_pos hgrid,Int.toNat_natCast]
    refine congrArg some (Prod.ext (funext ?_) (funext ?_))
    · exact grid_stored schedule (codeAt flat) hpos hcover
        (fun block thread ht => congrArg Prod.fst (quantizeInt8_eq h (shared block) block ht)) output
    · rw [←hblocks]
      exact grid_stored_first schedule (scaleAt flat) hpos
        (fun block thread ht => congrArg Prod.snd (quantizeInt8_eq h (shared block) block ht)) scales

/-- `launch_dequantize_int8` stores each integer times its block's scale. -/
theorem launchDequantizeInt8_eq {numel : ℕ} (hfits : numel+255 < 2147483648)
    (schedule : Schedule (ceilDivInt numel defaultBlockSize).toNat defaultBlockSize)
    (codes : ℕ → ℤ) (scales output : ℕ → ℚ) :
    launchDequantizeInt8 numel schedule codes scales output=
      some (fun place => if place<numel then codes place*scales (place/quantBlockSize)
        else output place) := by
  rw [launchDequantizeInt8]
  split
  · next hle =>
    obtain rfl : numel=0 := by omega
    rfl
  · next hsome =>
    obtain ⟨hgrid,hcover⟩ := ceilDivInt_covers (by omega) hfits
    rw [launched,if_pos hgrid,Int.toNat_natCast]
    refine congrArg some (funext (grid_stored schedule
      (fun place => codes place*scales (place/quantBlockSize)) (by decide) hcover
      (fun block thread _ => ?_) output))
    rw [dequantizeInt8]
    by_cases hin : block*defaultBlockSize+thread<numel
    · rw [if_neg (Nat.not_le.mpr hin),if_pos hin]
    · rw [if_pos (Nat.le_of_not_lt hin),if_neg hin]

/-- Whatever it returns with, it has left the places behind its count alone. -/
theorem launchDequantizeInt8_outside {count : ℤ}
    {schedule : Schedule (ceilDivInt count defaultBlockSize).toNat defaultBlockSize}
    {codes : ℕ → ℤ} {scales output after : ℕ → ℚ}
    (h : launchDequantizeInt8 count schedule codes scales output=some after) {place : ℕ}
    (hp : count.toNat≤place) : after place=output place := by
  rw [launchDequantizeInt8,launched] at h
  split at h
  · rw [Option.some.inj h]
  · split at h
    · rw [←Option.some.inj h]
      refine storeAll_other (fun hm => ?_)
      obtain ⟨store,hs,rfl⟩ := List.mem_map.mp hm
      obtain ⟨block,_,thread,_,hk⟩ := (mem_gridStores schedule).mp hs
      rw [dequantizeInt8] at hk
      split at hk
      · exact List.not_mem_nil hk
      · next hin =>
        rw [List.mem_singleton.mp hk] at hp
        exact hin hp
    · cases h

/-- A count that cannot be rounded up is refused. -/
theorem launchDequantizeInt8_refused {count : ℤ} (hlow : 2147483392 < count)
    (hhigh : count < 2147483648)
    (schedule : Schedule (ceilDivInt count defaultBlockSize).toNat defaultBlockSize)
    (codes : ℕ → ℤ) (scales output : ℕ → ℚ) :
    launchDequantizeInt8 count schedule codes scales output=none := by
  have hsize : (defaultBlockSize : ℤ)=256 := rfl
  have hneg := (ceilDivInt_over hhigh (by omega) (by omega) (by omega) :
    ceilDivInt count defaultBlockSize < 0 ∧ _).1
  rw [launchDequantizeInt8,if_neg (by omega),launched,if_neg (by omega)]

/-- `launch_quantize_dequantize` stores what comes back. -/
theorem launchQuantizeDequantize_eq (h : Holds input flat) (hfits : flat.length+63 < 2147483648)
    (schedule : Schedule (quantScaleCount flat.length).toNat quantBlockSize)
    (shared : ℕ → ℕ → ℚ) (output : ℕ → ℚ) :
    launchQuantizeDequantize flat.length schedule shared input output=
      some (fun place => if place < flat.length then restoredAt flat place else output place) := by
  have hcover : flat.length≤(quantScaleCount flat.length).toNat*quantBlockSize := by
    rw [quantScaleCount_eq hfits,Int.toNat_natCast]
    exact blockCount_covers _
  rw [launchQuantizeDequantize]
  split
  · next hle =>
    have hnone : flat.length=0 := by omega
    rw [hnone]
    rfl
  · next hsome =>
    have hgrid : 0<quantScaleCount flat.length := by
      by_contra hneg
      rw [Int.toNat_of_nonpos (not_lt.mp hneg),Nat.zero_mul] at hcover
      omega
    rw [launched,if_pos hgrid,Int.toNat_natCast]
    exact congrArg some (funext (grid_stored schedule (restoredAt flat) (by decide) hcover
      (fun block thread ht => quantizeDequantize_eq h (shared block) block ht) output))

end Launches

section Claims

variable {flat : List ℚ} {input : ℕ → ℚ}

/-- The integers are within the levels, and each block has a positive scale. -/
theorem quantised_range (flat : List ℚ) :
    (quantizeReference flat).1.length=flat.length ∧
      (quantizeReference flat).2.length=blockCount flat.length ∧
      (∀ code∈(quantizeReference flat).1, -127 ≤ code ∧ code ≤ 127) ∧
      ∀ scale∈(quantizeReference flat).2, 0<scale := by
  rw [quantizeReference_eq]
  refine ⟨by rw [List.length_map,List.length_range],by rw [List.length_map,List.length_range],
    ?_,?_⟩
  · intro code hm
    obtain ⟨place,_,rfl⟩ := List.mem_map.mp hm
    exact codeOf_range (by decide) _ _
  · intro scale hm
    obtain ⟨block,_,rfl⟩ := List.mem_map.mp hm
    exact scaleOf_pos (by decide) _

/-- An entry comes back up to half of its block's scale. -/
theorem restored_error {place : ℕ} (hp : place < flat.length) :
    ∃ value back scale, flat[place]?=some value ∧ (restored flat)[place]?=some back ∧
      (quantizeReference flat).2[place/quantBlockSize]?=some scale ∧ |value-back| ≤ scale/2 := by
  refine ⟨entry flat place,restoredAt flat place,scaleAt flat (place/quantBlockSize),
    getElem?_entry hp,?_,?_,codeOf_error (by decide) (entry_le_amax flat place)⟩
  · rw [restored_eq,getElem?_map_range,if_pos hp]
  · rw [quantizeReference_eq,getElem?_map_range,if_pos (block_lt hp)]

/-- A zero comes back as it was. -/
theorem restored_zero {place : ℕ} (hz : entry flat place=0) :
    (restored flat)[place]?=flat[place]? := by
  by_cases hin : place < flat.length
  · have hback : restoredAt flat place=0 := by
      rw [restoredAt,codeAt,hz,codeOf_zero (by decide),Int.cast_zero,zero_mul]
    rw [getElem?_entry hin,hz,restored_eq,getElem?_map_range,if_pos hin,hback]
  · have hout := Nat.le_of_not_lt hin
    rw [List.getElem?_eq_none hout,List.getElem?_eq_none (by rw [restored_length]; exact hout)]

/-- A block's scale and integers depend on its own entries. -/
theorem quantised_local {other : List ℚ} {block : ℕ} (h : ∀ place < quantBlockSize,
    flat[block*quantBlockSize+place]?=other[block*quantBlockSize+place]?) :
    (quantizeReference flat).2[block]?=(quantizeReference other).2[block]? ∧
      ∀ place < quantBlockSize, (quantizeReference flat).1[block*quantBlockSize+place]?=
        (quantizeReference other).1[block*quantBlockSize+place]? := by
  have hin : ∀ place < quantBlockSize, (block*quantBlockSize+place < flat.length ↔
      block*quantBlockSize+place < other.length) := by
    intro place hp
    rw [←not_le,←not_le,←List.getElem?_eq_none_iff,←List.getElem?_eq_none_iff,h place hp]
  have hscale : scaleAt flat block=scaleAt other block := by
    rw [scaleAt,scaleAt,blockOf_congr h]
  have hblocks : block<blockCount flat.length ↔ block<blockCount other.length := by
    rw [lt_blockCount,lt_blockCount]
    exact hin 0 (by decide)
  rw [quantizeReference_eq,quantizeReference_eq]
  constructor
  · rw [getElem?_map_range,getElem?_map_range,if_congr hblocks rfl rfl,hscale]
  · intro place hp
    have hcode : codeAt flat (block*quantBlockSize+place)=
        codeAt other (block*quantBlockSize+place) := by
      rw [codeAt,codeAt,RowMajor.place_div hp,hscale,entry,entry,List.getD_eq_getElem?_getD,
        List.getD_eq_getElem?_getD,h place hp]
    rw [getElem?_map_range,getElem?_map_range,if_congr (hin place hp) rfl rfl,hcode]

/-- What the kernels leave in their buffers is what the reference returns. They are given
the number of elements as the bindings convert it. -/
structure Computes (flat : List ℚ) (input : ℕ → ℚ) : Prop where
  /-- `quantize_int8` stores the integers and the scales. -/
  quantize : ∀ schedule shared output scales, ∃ after,
    launchQuantizeInt8 (wrap flat.length) schedule shared input output scales=some after ∧
    (List.range flat.length).map after.1=(quantizeReference flat).1 ∧
    (List.range (blockCount flat.length)).map after.2=(quantizeReference flat).2
  /-- `dequantize_int8` restores any integers and scales as the reference does. -/
  dequantize : ∀ schedule codes scales output, ∃ after,
    launchDequantizeInt8 (wrap flat.length) schedule codes scales output=some after ∧
    (List.range flat.length).map after=
      dequantizeReference ((List.range flat.length).map codes)
        ((List.range (blockCount flat.length)).map scales)
  /-- `quantize_dequantize` stores what comes back. -/
  fake : ∀ schedule shared output, ∃ after,
    launchQuantizeDequantize (wrap flat.length) schedule shared input output=some after ∧
    (List.range flat.length).map after=restored flat

/-- In any order of their blocks and threads, for a length that can be rounded up. -/
theorem kernels_compute (h : Holds input flat) (hfits : flat.length ≤ 2147483392) :
    Computes flat input := by
  have hcount : wrap flat.length=flat.length := wrap_eq (by omega) (by omega)
  constructor
  · rw [hcount]
    intro schedule shared output scales
    refine ⟨_,launchQuantizeInt8_eq h (by omega) schedule shared output scales,?_⟩
    rw [quantizeReference_eq]
    constructor
    · exact List.map_congr_left (fun place hm => if_pos (List.mem_range.mp hm))
    · exact List.map_congr_left (fun block hm => if_pos (List.mem_range.mp hm))
  · rw [hcount]
    intro schedule codes scales output
    refine ⟨_,launchDequantizeInt8_eq (by omega) schedule codes scales output,?_⟩
    rw [dequantizeReference_eq]
    exact List.map_congr_left (fun place hm => if_pos (List.mem_range.mp hm))
  · rw [hcount]
    intro schedule shared output
    refine ⟨_,launchQuantizeDequantize_eq h (by omega) schedule shared output,?_⟩
    rw [restored_eq]
    exact List.map_congr_left (fun place hm => if_pos (List.mem_range.mp hm))

/-- A length that cannot be rounded up is not restored: either the launch is refused, or
the converted count leaves out the last element. -/
theorem not_computes (hlong : 2147483392 < flat.length) : ¬Computes flat input := by
  intro h
  obtain ⟨after,hafter,hvalues⟩ := h.dequantize (ascending _ _) (fun _ => 0) (fun _ => 0)
    (fun _ => 1)
  by_cases hfits : flat.length < 2147483648
  · have hcount : wrap flat.length=flat.length := wrap_eq (by omega) (by omega)
    rw [launchDequantizeInt8_refused (by omega) (by omega)] at hafter
    cases hafter
  · have hlast : after (flat.length-1)=1 := by
      have hrange := wrap_range (flat.length : ℤ)
      exact launchDequantizeInt8_outside hafter (by omega)
    rw [dequantizeReference_eq] at hvalues
    have hzero := List.map_inj_left.mp hvalues (flat.length-1)
      (List.mem_range.mpr (by omega))
    rw [hlast,Int.cast_zero,zero_mul] at hzero
    exact one_ne_zero hzero

/-- Quantisation and back of a flat tensor. -/
structure RoundTrips (flat : List ℚ) : Prop where
  /-- The integers are within the levels, and each block has a positive scale. -/
  range : (quantizeReference flat).1.length=flat.length ∧
    (quantizeReference flat).2.length=blockCount flat.length ∧
    (∀ code∈(quantizeReference flat).1, -127 ≤ code ∧ code ≤ 127) ∧
    ∀ scale∈(quantizeReference flat).2, 0<scale
  /-- An entry comes back up to half of its block's scale. -/
  error : ∀ place < flat.length, ∃ value back scale, flat[place]?=some value ∧
    (restored flat)[place]?=some back ∧
    (quantizeReference flat).2[place/quantBlockSize]?=some scale ∧ |value-back| ≤ scale/2
  /-- A block of zeros comes back as it was. -/
  zeros : ∀ block, (∀ place < quantBlockSize, entry flat (block*quantBlockSize+place)=0) →
    ∀ place < quantBlockSize, (restored flat)[block*quantBlockSize+place]?=
      flat[block*quantBlockSize+place]?
  /-- A block's integers and scale depend on its own entries. -/
  apart : ∀ other block, (∀ place < quantBlockSize,
      flat[block*quantBlockSize+place]?=other[block*quantBlockSize+place]?) →
    (quantizeReference flat).2[block]?=(quantizeReference other).2[block]? ∧
    ∀ place < quantBlockSize, (quantizeReference flat).1[block*quantBlockSize+place]?=
      (quantizeReference other).1[block*quantBlockSize+place]?
  /-- The kernels compute what the reference does. -/
  computes : ∀ input, Holds input flat → Computes flat input
  /-- Quantising what comes back changes nothing. -/
  again : quantizeReference (restored flat)=quantizeReference flat

/-- Some memory holds a flat tensor. -/
theorem holds_entry (flat : List ℚ) : Holds (entry flat) flat :=
  fun _ hp => getElem?_entry hp

/-- Quantisation and back work as they should, and the kernels compute what the reference
does, if and only if the length can be rounded up to whole blocks of threads in an
`int`. -/
theorem quantisation_roundTrip (flat : List ℚ) :
    RoundTrips flat ↔ flat.length ≤ 2147483392 := by
  constructor
  · intro h
    by_contra hlong
    exact not_computes (not_le.mp hlong) (h.computes _ (holds_entry flat))
  · intro hfits
    exact ⟨quantised_range flat,fun _ hp => restored_error hp,
      fun _ hz place hp => restored_zero (hz place hp),fun _ _ h => quantised_local h,
      fun _ h => kernels_compute h hfits,quantizeReference_restored flat⟩

/-- Three entries, one of them half way between two integers. -/
example : quantizeReference [5/2,-127,0]=([2,-127,0],[1]) := by decide +kernel

/-- The shortest tensor whose restoring is refused. -/
theorem quantisation_refused : ¬RoundTrips (List.replicate 2147483393 0) := by
  intro h
  have hlength : (List.replicate 2147483393 (0 : ℚ)).length=2147483393 := List.length_replicate
  exact not_computes (by rw [hlength]; omega) (h.computes _ (holds_entry _))

end Claims

end CudaForge.QuantisedBlocks
