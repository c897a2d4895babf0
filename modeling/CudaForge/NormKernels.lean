import CudaForge.BarrierPrograms
import CudaForge.SoftmaxKernels

/-!
# The RMS normalisation kernels

`launch_rmsnorm` with its scalar and its vectorised kernel, the kernel for
16-bit storage, and `launch_fused_residual_rmsnorm`, in exact arithmetic. One
block handles one row: its threads add up squares over strided columns, the
block reduces them, and a second pass over the same columns scales. Rows run in
any order, and so do the threads of a block between two barriers.
-/

namespace CudaForge.NormKernels

open BarrierPrograms BlockReductions RowMajor SoftmaxKernels ThreadPhases WrappedIntegers

/-- `RMSNormKernel`. -/
inductive RMSNormKernel where
  /-- Scalar loads. -/
  | naive
  /-- Loads and stores of four floats at a time. -/
  | vectorised
  deriving DecidableEq,Repr

/-- The addresses of the arrays that a launch is given. -/
structure Addresses where
  /-- `input`. -/
  input : ℕ
  /-- `weight`. -/
  weight : ℕ
  /-- `output`. -/
  output : ℕ

/-- `kAlignment`: the bytes of a `float4`, and what its address is a multiple of. -/
def vectorBytes : ℕ := 16

/-- `vectorisable`. -/
def vectorisable (a : Addresses) (cols : ℕ) : Bool :=
  decide (cols%4=0) && decide (a.input%vectorBytes=0) && decide (a.weight%vectorBytes=0) &&
    decide (a.output%vectorBytes=0)

/-- Whether a launch takes the vectorised kernel. -/
def vectorises (a : Addresses) (variant : RMSNormKernel) (cols : ℕ) : Bool :=
  decide (variant=.vectorised) && vectorisable a cols

/-- The threads of a block of `launch_rmsnorm`. -/
def normBlock (a : Addresses) (variant : RMSNormKernel) (cols : ℕ) : ℕ :=
  if vectorises a variant cols then blockSizeForRow (cols/4) else blockSizeForRow cols

section Kernels

variable {K T : Type} [Field K] (rsqrt : K → K)

/-- The kernel over a row whose elements are converted on their way in and on
their way out. -/
def normRow (toFloat : T → K) (fromFloat : K → T) (rows cols blockDim : ℕ) (eps : K)
    (columns threads : ℕ → List ℕ) (scratch : ℕ → K) (input weight : ℕ → T) (row : ℕ)
    (output : ℕ → T) : ℕ → T :=
  if rows≤row then output
  else
    let rowIn := fun col => toFloat (input (row*cols+col))
    let sumSquares := (blockReduceSum blockDim (fun thread =>
      localSum (fun col => rowIn col*rowIn col) (columns thread)) scratch).1
    let scale := fun thread => rsqrt (sumSquares thread/(cols : K)+eps)
    phase (fun col => row*cols+col)
      (fun thread col _ => fromFloat (rowIn col*scale thread*toFloat (weight col)))
      columns (threads 0) output

/-- `rmsnorm_naive`, in the block of a row. -/
def rmsnormNaive (rows cols blockDim : ℕ) (eps : K) (columns threads : ℕ → List ℕ)
    (scratch : ℕ → K) (input weight : ℕ → K) (row : ℕ) (output : ℕ → K) : ℕ → K :=
  normRow rsqrt id id rows cols blockDim eps columns threads scratch input weight row output

/-- `rmsnorm_reduced`, in the block of a row. -/
def rmsnormReduced (toFloat : T → K) (fromFloat : K → T) (rows cols blockDim : ℕ) (eps : K)
    (columns threads : ℕ → List ℕ) (scratch : ℕ → K) (input weight : ℕ → T) (row : ℕ)
    (output : ℕ → T) : ℕ → T :=
  normRow rsqrt toFloat fromFloat rows cols blockDim eps columns threads scratch input weight row
    output

/-- The cells of a thread that goes over vectors: an index and a lane. -/
def vectorCells (columns : ℕ → List ℕ) (thread : ℕ) : List (ℕ×ℕ) :=
  (columns thread).flatMap (fun index => (List.range 4).map (fun lane => (index,lane)))

/-- `rmsnorm_vectorised`, in the block of a row. -/
def rmsnormVectorised (rows vecCols cols blockDim : ℕ) (eps : K) (columns threads : ℕ → List ℕ)
    (scratch : ℕ → K) (input weight : ℕ → K) (row : ℕ) (output : ℕ → K) : ℕ → K :=
  if rows≤row then output
  else
    let rowIn := fun index lane => input ((row*vecCols+index)*4+lane)
    let sumSquares := (blockReduceSum blockDim (fun thread =>
      (columns thread).foldl (fun sum index =>
        sum+rowIn index 0*rowIn index 0+rowIn index 1*rowIn index 1+rowIn index 2*rowIn index 2+
          rowIn index 3*rowIn index 3) 0) scratch).1
    let scale := fun thread => rsqrt (sumSquares thread/(cols : K)+eps)
    phase (fun cell => (row*vecCols+cell.1)*4+cell.2)
      (fun thread cell _ => rowIn cell.1 cell.2*scale thread*weight (cell.1*4+cell.2))
      (vectorCells columns) (threads 0) output

/-- `launch_rmsnorm`: the output once the blocks have run, each with whatever its
shared memory held. Nothing is said of it when a thread's counter overflows. -/
def launchRmsnorm (a : Addresses) (variant : RMSNormKernel) (rows cols : ℤ) (eps : K)
    (schedule : Schedule rows.toNat (normBlock a variant cols.toNat)) (scratch : ℕ → ℕ → K)
    (input weight output : ℕ → K) : Option (ℕ → K) :=
  if rows≤0 ∨ cols≤0 then some output
  else
    let block := normBlock a variant cols.toNat
    if vectorises a variant cols.toNat then
      (columnLoop (cols.toNat/4) block).map (fun columns =>
        schedule.blocks.foldl (fun output row =>
          rmsnormVectorised rsqrt rows.toNat (cols.toNat/4) cols.toNat block eps columns
            (schedule.threads row) (scratch row) input weight row output) output)
    else
      (columnLoop cols.toNat block).map (fun columns =>
        schedule.blocks.foldl (fun output row =>
          rmsnormNaive rsqrt rows.toNat cols.toNat block eps columns (schedule.threads row)
            (scratch row) input weight row output) output)

/-- `launch_rmsnorm_half` and `launch_rmsnorm_bf16`, which differ in the storage
format. -/
def launchRmsnormReduced (toFloat : T → K) (fromFloat : K → T) (rows cols : ℤ) (eps : K)
    (schedule : Schedule rows.toNat (blockSizeForRow cols.toNat)) (scratch : ℕ → ℕ → K)
    (input weight output : ℕ → T) : Option (ℕ → T) :=
  if rows≤0 ∨ cols≤0 then some output
  else
    (columnLoop cols.toNat (blockSizeForRow cols.toNat)).map (fun columns =>
      schedule.blocks.foldl (fun output row =>
        rmsnormReduced rsqrt toFloat fromFloat rows.toNat cols.toNat
          (blockSizeForRow cols.toNat) eps columns (schedule.threads row) (scratch row) input
          weight row output) output)

/-- The two arrays that the fused kernel writes. -/
@[ext]
structure NormBuffers (K : Type) where
  /-- `output`. -/
  output : ℕ → K
  /-- `residual_out`. -/
  residualOut : ℕ → K

/-- What `residual` holds: an array of its own, or what `residual_out` holds when
the two are one array. -/
def residualAt (residual : Option (ℕ → K)) (residualOut : ℕ → K) : ℕ → K :=
  residual.getD residualOut

/-- `fused_residual_rmsnorm`, in the block of a row. -/
def fusedResidualRmsnorm (rows cols blockDim : ℕ) (eps : K) (columns threads : ℕ → List ℕ)
    (scratch : ℕ → K) (input : ℕ → K) (residual : Option (ℕ → K)) (weight : ℕ → K) (row : ℕ)
    (b : NormBuffers K) : NormBuffers K :=
  if rows≤row then b
  else
    let place := fun col => row*cols+col
    -- a place is read by the thread that then overwrites it, and by no other
    let summed := fun col => input (place col)+residualAt residual b.residualOut (place col)
    let residualOut := phase place (fun _ col _ => summed col) columns (threads 0) b.residualOut
    let sumSquares := (blockReduceSum blockDim (fun thread =>
      localSum (fun col => summed col*summed col) (columns thread)) scratch).1
    let scale := fun thread => rsqrt (sumSquares thread/(cols : K)+eps)
    ⟨phase place (fun thread col _ => residualOut (place col)*scale thread*weight col) columns
      (threads 1) b.output,residualOut⟩

/-- `launch_fused_residual_rmsnorm`. -/
def launchFusedResidualRmsnorm (rows cols : ℤ) (eps : K)
    (schedule : Schedule rows.toNat (blockSizeForRow cols.toNat)) (scratch : ℕ → ℕ → K)
    (input : ℕ → K) (residual : Option (ℕ → K)) (weight : ℕ → K) (b : NormBuffers K) :
    Option (NormBuffers K) :=
  if rows≤0 ∨ cols≤0 then some b
  else
    (columnLoop cols.toNat (blockSizeForRow cols.toNat)).map (fun columns =>
      schedule.blocks.foldl (fun b row =>
        fusedResidualRmsnorm rsqrt rows.toNat cols.toNat (blockSizeForRow cols.toNat) eps
          columns (schedule.threads row) (scratch row) input residual weight row b) b)

/-- `_rmsnorm_reference` over the rows of an array in row-major order. -/
def rmsnormReference (toFloat : T → K) (fromFloat : K → T) (cols : ℕ) (eps : K)
    (x weight : ℕ → T) (place : ℕ) : T :=
  let promoted := fun i => toFloat (x i)
  let row := place/cols*cols
  let variance := (∑ other ∈ Finset.range cols,promoted (row+other)*promoted (row+other))/(cols : K)
  let normalised := promoted place*rsqrt (variance+eps)
  fromFloat (normalised*toFloat (weight (place%cols)))

end Kernels

section Vectors

/-- A row of vectors is a row of their lanes. -/
theorem sum_vectors {M : Type} [AddCommMonoid M] (values : ℕ → M) (count : ℕ) :
    ∑ index ∈ Finset.range count,(values (index*4)+values (index*4+1)+values (index*4+2)+
      values (index*4+3))=∑ col ∈ Finset.range (count*4),values col := by
  induction count with
  | zero => rfl
  | succ count ih =>
    rw [Finset.sum_range_succ,ih,Nat.succ_mul]
    simp only [Finset.sum_range_succ,add_assoc]

variable {vecCols step thread base : ℕ}

/-- The cells of a thread. -/
theorem mem_vectorCells {cell : ℕ×ℕ} (ht : thread<step) :
    cell∈vectorCells (columnsOf vecCols step) thread ↔
      cell.1<vecCols ∧ cell.1%step=thread ∧ cell.2 < 4 := by
  rw [vectorCells,List.mem_flatMap]
  constructor
  · rintro ⟨index,hm,hl⟩
    obtain ⟨lane,hr,rfl⟩ := List.mem_map.mp hl
    have hc := (mem_columnsOf ht).mp hm
    exact ⟨hc.1,hc.2,List.mem_range.mp hr⟩
  · rintro ⟨hc,hs,hl⟩
    exact ⟨cell.1,(mem_columnsOf ht).mpr ⟨hc,hs⟩,
      List.mem_map.mpr ⟨cell.2,List.mem_range.mpr hl,rfl⟩⟩

/-- No place is written twice when the threads go over vectors. -/
theorem written_vectorCells (hs : 0<step) {threads : List ℕ}
    (hp : threads.Perm (List.range step)) :
    (written (fun cell : ℕ×ℕ => (base+cell.1)*4+cell.2) (vectorCells (columnsOf vecCols step))
      threads).Nodup := by
  have hnodup : threads.Nodup := hp.nodup_iff.mpr List.nodup_range
  refine nodup_flatMap_of_owner (fun place => (place/4-base)%step) hnodup ?_ ?_
  · intro thread _
    rw [vectorCells,List.map_flatMap]
    refine nodup_flatMap_of_owner (fun place => place/4-base) (columnsOf_nodup hs) ?_ ?_
    · intro index _
      rw [List.map_map]
      exact List.nodup_range.map (fun lane other h => Nat.add_left_cancel h)
    · intro index _ place hm
      rw [List.map_map] at hm
      obtain ⟨lane,hl,rfl⟩ := List.mem_map.mp hm
      have hlane := List.mem_range.mp hl
      simp only [Function.comp_apply]
      omega
  · intro thread hm place hplace
    have ht := List.mem_range.mp (hp.mem_iff.mp hm)
    obtain ⟨cell,hc,rfl⟩ := List.mem_map.mp hplace
    obtain ⟨_,hmod,hlane⟩ := (mem_vectorCells ht).mp hc
    have hindex : ((base+cell.1)*4+cell.2)/4-base=cell.1 := by omega
    simp only [hindex]
    exact hmod

end Vectors

section Rows

variable {K T : Type} [Field K] {rsqrt : K → K} {eps : K}

/-- The RMS normalisation of a row, times its gains. -/
def normalised (rsqrt : K → K) (eps : K) (cols : ℕ) (values gains : ℕ → K) (col : ℕ) : K :=
  values col*rsqrt ((∑ other ∈ Finset.range cols,values other*values other)/(cols : K)+eps)*
    gains col

variable {rows cols warps row : ℕ} {threads : ℕ → List ℕ} {scratch : ℕ → K}

/-- The kernel writes the normalisation of its row, and nothing else. -/
theorem normRow_writes (toFloat : T → K) (fromFloat : K → T) (ho : Ordered warps threads)
    (hrow : row<rows) (input weight output : ℕ → T) (place : ℕ) :
    normRow rsqrt toFloat fromFloat rows cols (warps*warpSize) eps
        (columnsOf cols (warps*warpSize)) threads scratch input weight row output place=
      if InRow cols row place then
        fromFloat (normalised rsqrt eps cols (fun col => toFloat (input (row*cols+col)))
          (fun col => toFloat (weight col)) (place-row*cols))
      else output place := by
  simp only [normRow,if_neg (Nat.not_le.mpr hrow)]
  refine @write_row T cols row output _ ho.threads_pos _ (ho.perm 0) _
    (fun col => fromFloat (normalised rsqrt eps cols
      (fun col => toFloat (input (row*cols+col))) (fun col => toFloat (weight col)) col)) ?_ place
  intro thread col hcol old
  rw [blockSum_eq ho.positive ho.le_warpSize
    (fun col => toFloat (input (row*cols+col))*toFloat (input (row*cols+col)))]
  · rfl
  · intro other _
    exact localSum_eq _ _

/-- What a thread adds up over its vectors. -/
theorem vectorSum_eq (values : ℕ → ℕ → K) (indices : List ℕ) :
    indices.foldl (fun sum index =>
      sum+values index 0*values index 0+values index 1*values index 1+
        values index 2*values index 2+values index 3*values index 3) 0=
      (indices.map (fun index => values index 0*values index 0+values index 1*values index 1+
        values index 2*values index 2+values index 3*values index 3)).sum := by
  rw [←localSum_eq,localSum]
  refine congrArg (fun step => indices.foldl step 0) ?_
  funext sum index
  ring

/-- So does the vectorised kernel, when its vectors make up the row. -/
theorem rmsnormVectorised_writes (ho : Ordered warps threads) (hrow : row<rows) {vecCols : ℕ}
    (hcols : cols=vecCols*4) (input weight output : ℕ → K) (place : ℕ) :
    rmsnormVectorised rsqrt rows vecCols cols (warps*warpSize) eps
        (columnsOf vecCols (warps*warpSize)) threads scratch input weight row output place=
      if InRow cols row place then
        normalised rsqrt eps cols (fun col => input (row*cols+col)) weight (place-row*cols)
      else output place := by
  simp only [rmsnormVectorised,if_neg (Nat.not_le.mpr hrow)]
  have hstep := ho.threads_pos
  have hrowplace : ∀ index lane, (row*vecCols+index)*4+lane=row*cols+(index*4+lane) := by
    intro index lane
    rw [hcols]
    ring
  have hsum : ∀ thread, (blockReduceSum (warps*warpSize) (fun thread =>
      (columnsOf vecCols (warps*warpSize) thread).foldl (fun sum index =>
        sum+input ((row*vecCols+index)*4+0)*input ((row*vecCols+index)*4+0)+
          input ((row*vecCols+index)*4+1)*input ((row*vecCols+index)*4+1)+
          input ((row*vecCols+index)*4+2)*input ((row*vecCols+index)*4+2)+
          input ((row*vecCols+index)*4+3)*input ((row*vecCols+index)*4+3)) 0) scratch).1 thread=
      ∑ other ∈ Finset.range cols,input (row*cols+other)*input (row*cols+other) := by
    intro thread
    rw [blockSum_eq ho.positive ho.le_warpSize (fun index =>
      input ((row*vecCols+index)*4+0)*input ((row*vecCols+index)*4+0)+
        input ((row*vecCols+index)*4+1)*input ((row*vecCols+index)*4+1)+
        input ((row*vecCols+index)*4+2)*input ((row*vecCols+index)*4+2)+
        input ((row*vecCols+index)*4+3)*input ((row*vecCols+index)*4+3))]
    · simp only [hrowplace,Nat.add_zero]
      rw [sum_vectors (fun col => input (row*cols+col)*input (row*cols+col)),←hcols]
    · intro other _
      exact vectorSum_eq (fun index lane => input ((row*vecCols+index)*4+lane)) _
  simp only [hsum]
  split
  · next hin =>
    obtain ⟨hlow,hhigh⟩ := hin
    have hlane : (place-row*cols)%4 < 4 := Nat.mod_lt _ (by decide)
    have hindex : (place-row*cols)/4<vecCols := by omega
    have hthread := Nat.mod_lt ((place-row*cols)/4) hstep
    have hcell : ((place-row*cols)/4,(place-row*cols)%4)∈
        vectorCells (columnsOf vecCols (warps*warpSize)) ((place-row*cols)/4%(warps*warpSize)) :=
      (mem_vectorCells hthread).mpr ⟨hindex,rfl,hlane⟩
    have happly := @phase_apply _ _ (fun cell : ℕ×ℕ => (row*vecCols+cell.1)*4+cell.2)
      (fun _ cell _ => input ((row*vecCols+cell.1)*4+cell.2)*rsqrt ((∑ other ∈ Finset.range cols,
        input (row*cols+other)*input (row*cols+other))/(cols : K)+eps)*weight (cell.1*4+cell.2))
      (vectorCells (columnsOf vecCols (warps*warpSize))) (threads 0) output
      (written_vectorCells hstep (ho.perm 0))
      _ ((ho.perm 0).mem_iff.mpr (List.mem_range.mpr hthread)) _ hcell
    have hcol : (place-row*cols)/4*4+(place-row*cols)%4=place-row*cols :=
      Nat.div_add_mod' _ 4
    have hplace : row*cols+(place-row*cols)=place := by omega
    simp only [hrowplace,hcol,hplace] at happly ⊢
    rw [happly,normalised,hplace]
  · next hout =>
    refine phase_other ?_
    intro hm
    obtain ⟨thread,ht,hm⟩ := List.mem_flatMap.mp hm
    obtain ⟨cell,hc,he⟩ := List.mem_map.mp hm
    have hlt := List.mem_range.mp ((ho.perm 0).mem_iff.mp ht)
    obtain ⟨hindex,_,hlane⟩ := (mem_vectorCells hlt).mp hc
    rw [hrowplace] at he
    exact hout ⟨by omega,by omega⟩

/-- The fused kernel writes the sums of its row to `residual_out`. -/
theorem fusedResidualRmsnorm_sums (ho : Ordered warps threads) (hrow : row<rows)
    (input weight : ℕ → K) (residual : Option (ℕ → K)) (b : NormBuffers K) (place : ℕ) :
    (fusedResidualRmsnorm rsqrt rows cols (warps*warpSize) eps
        (columnsOf cols (warps*warpSize)) threads scratch input residual weight row
          b).residualOut place=
      if InRow cols row place then input place+residualAt residual b.residualOut place
      else b.residualOut place := by
  simp only [fusedResidualRmsnorm,if_neg (Nat.not_le.mpr hrow)]
  have hw := @write_row K cols row b.residualOut _ ho.threads_pos _ (ho.perm 0) _
    (fun col => input (row*cols+col)+residualAt residual b.residualOut (row*cols+col))
    (fun _ _ _ _ => rfl) place
  refine hw.trans ?_
  split
  · next hin =>
    have he : row*cols+(place-row*cols)=place := by
      have hlow := hin.1
      omega
    simp only [he]
  · rfl

/-- And the normalisation of these sums to `output`. -/
theorem fusedResidualRmsnorm_writes (ho : Ordered warps threads) (hrow : row<rows)
    (input weight : ℕ → K) (residual : Option (ℕ → K)) (b : NormBuffers K) (place : ℕ) :
    (fusedResidualRmsnorm rsqrt rows cols (warps*warpSize) eps
        (columnsOf cols (warps*warpSize)) threads scratch input residual weight row b).output place=
      if InRow cols row place then
        normalised rsqrt eps cols (fun col => input (row*cols+col)+
          residualAt residual b.residualOut (row*cols+col)) weight (place-row*cols)
      else b.output place := by
  have hsums := fun col => @fusedResidualRmsnorm_sums K _ rsqrt eps rows cols warps row threads
    scratch ho hrow input weight residual b (row*cols+col)
  simp only [fusedResidualRmsnorm,if_neg (Nat.not_le.mpr hrow)] at hsums ⊢
  refine @write_row K cols row b.output _ ho.threads_pos _ (ho.perm 1) _
    (fun col => normalised rsqrt eps cols (fun col => input (row*cols+col)+
      residualAt residual b.residualOut (row*cols+col)) weight col) ?_ place
  intro thread col hcol old
  have hin : InRow cols row (row*cols+col) := ⟨by omega,by omega⟩
  rw [hsums,if_pos hin,blockSum_eq ho.positive ho.le_warpSize (fun col =>
    (input (row*cols+col)+residualAt residual b.residualOut (row*cols+col))*
      (input (row*cols+col)+residualAt residual b.residualOut (row*cols+col)))]
  · rfl
  · intro other _
    exact localSum_eq _ _

end Rows

section Launches

/-- The row that a place belongs to. -/
theorem inRow_div {cols row place : ℕ} (h : InRow cols row place) : place/cols=row := by
  refine Nat.div_eq_of_lt_le h.1 ?_
  rw [Nat.succ_mul]
  exact h.2

/-- The places of so many rows. -/
theorem exists_inRow_iff {rows cols : ℕ} (hcols : 0<cols) {blocks : List ℕ}
    (hp : blocks.Perm (List.range rows)) (place : ℕ) :
    (∃ row∈blocks, InRow cols row place) ↔ place<rows*cols := by
  constructor
  · rintro ⟨row,hm,_,hhigh⟩
    have hr := List.mem_range.mp (hp.mem_iff.mp hm)
    have hle := Nat.mul_le_mul_right cols (Nat.succ_le_of_lt hr)
    rw [Nat.succ_mul] at hle
    omega
  · intro hlt
    refine ⟨place/cols,hp.mem_iff.mpr (List.mem_range.mpr (Nat.div_lt_of_lt_mul ?_)),
      Nat.div_mul_le_self place cols,?_⟩
    · rwa [Nat.mul_comm]
    · have hd := Nat.div_add_mod' place cols
      have hm := Nat.mod_lt place hcols
      omega

/-- Blocks that each write their row of a value. -/
theorem foldl_rows {V : Type} {rows cols : ℕ} (hcols : 0<cols) {blocks : List ℕ}
    (hp : blocks.Perm (List.range rows)) (run : ℕ → (ℕ → V) → ℕ → V) (value : ℕ → V)
    (hrun : ∀ row < rows, ∀ memory place,
      run row memory place=if InRow cols row place then value place else memory place)
    (memory : ℕ → V) (place : ℕ) :
    blocks.foldl (fun memory row => run row memory) memory place=
      if place<rows*cols then value place else memory place := by
  rw [foldl_regions run value (InRow cols) (fun row hm =>
    hrun row (List.mem_range.mp (hp.mem_iff.mp hm)))]
  by_cases hin : ∃ row∈blocks, InRow cols row place
  · rw [if_pos hin,if_pos ((exists_inRow_iff hcols hp place).mp hin)]
  · rw [if_neg hin,if_neg (fun hlt => hin ((exists_inRow_iff hcols hp place).mpr hlt))]

/-- When the vectorised kernel is taken, the vectors make up the row. -/
theorem vectorises_cols {a : Addresses} {variant : RMSNormKernel} {cols : ℕ}
    (h : vectorises a variant cols=true) : cols=cols/4*4 := by
  simp only [vectorises,vectorisable,Bool.and_eq_true,decide_eq_true_eq] at h
  omega

variable {K T : Type} [Field K] (rsqrt : K → K)

/-- A row's own normalisation is the reference at its places. -/
theorem reference_inRow (toFloat : T → K) (fromFloat : K → T) (eps : K) (input weight : ℕ → T)
    {cols row place : ℕ} (h : InRow cols row place) :
    fromFloat (normalised rsqrt eps cols (fun col => toFloat (input (row*cols+col)))
        (fun col => toFloat (weight col)) (place-row*cols))=
      rmsnormReference rsqrt toFloat fromFloat cols eps input weight place := by
  have hd := Nat.div_add_mod' place cols
  rw [inRow_div h] at hd
  have hcol : place-row*cols=place%cols := by omega
  rw [normalised,rmsnormReference,hcol,hd,inRow_div h]

/-- Nothing is launched for an empty shape, and no place belongs to it. -/
theorem no_places {rows cols : ℤ} (h : rows≤0 ∨ cols≤0) (place : ℕ) :
    ¬place<rows.toNat*cols.toNat := by
  have hz : rows.toNat*cols.toNat=0 := by
    rcases h with h|h
    · rw [Int.toNat_of_nonpos h,Nat.zero_mul]
    · rw [Int.toNat_of_nonpos h,Nat.mul_zero]
  rw [hz]
  exact Nat.not_lt_zero place

/-- The row leaves room in an `int` for one more step of the largest block. -/
def LeavesRoom (cols : ℤ) : Prop := cols+maxBlockSize ≤ intMax+1

/-- A launch over rows of their own, whose blocks write a value. -/
theorem launchRows_eq {V : Type} {rows cols : ℤ} (hcols : 0<cols) {length blockDim : ℕ}
    (hlength : 0<length) (hroom : length+maxBlockSize ≤ intMax+1)
    (hb : blockDim=blockSizeForRow length) (schedule : Schedule rows.toNat blockDim)
    (run : (ℕ → List ℕ) → ℕ → (ℕ → V) → ℕ → V) (value output : ℕ → V)
    (hrun : ∀ warps, blockDim=warps*warpSize → ∀ row < rows.toNat,
      Ordered warps (schedule.threads row) → ∀ memory place,
        run (columnsOf length (warps*warpSize)) row memory place=
          if InRow cols.toNat row place then value place else memory place) :
    (columnLoop length blockDim).map (fun columns =>
        schedule.blocks.foldl (fun output row => run columns row output) output)=
      some (fun place => if place<rows.toNat*cols.toNat then value place else output place) := by
  obtain ⟨warps,hpos,hle,hblock⟩ := blockSizeForRow_eq length
  rw [←hb] at hblock
  have hloop : columnLoop length blockDim=some (columnsOf length (warps*warpSize)) := by
    rw [hb,columnLoop_room hlength hroom,←hb,hblock]
  rw [hloop,Option.map_some]
  refine congrArg some (funext fun place => foldl_rows (by omega) schedule.blocks_perm
    (run (columnsOf length (warps*warpSize))) value (fun row hrow => ?_) output place)
  refine hrun warps hblock row hrow ⟨hpos,hle,fun stage => ?_⟩
  rw [←hblock]
  exact schedule.threads_perm row stage

/-- For rows that leave room, whichever kernel `launch_rmsnorm` takes, for whatever shape and
wherever the arrays lie, it writes what the reference computes and nothing else. -/
theorem launchRmsnorm_eq (a : Addresses) (variant : RMSNormKernel) (rows cols : ℤ)
    (hroom : LeavesRoom cols) (eps : K)
    (schedule : Schedule rows.toNat (normBlock a variant cols.toNat)) (scratch : ℕ → ℕ → K)
    (input weight output : ℕ → K) :
    launchRmsnorm rsqrt a variant rows cols eps schedule scratch input weight output=
      some (fun place => if place<rows.toNat*cols.toNat then
        rmsnormReference rsqrt id id cols.toNat eps input weight place
      else output place) := by
  unfold launchRmsnorm
  rw [LeavesRoom] at hroom
  by_cases hempty : rows≤0 ∨ cols≤0
  · rw [if_pos hempty]
    exact congrArg some (funext fun place => (if_neg (no_places hempty place)).symm)
  rw [if_neg hempty]
  dsimp only
  by_cases hv : vectorises a variant cols.toNat=true
  · have hvectors := vectorises_cols hv
    have hb : normBlock a variant cols.toNat=blockSizeForRow (cols.toNat/4) := if_pos hv
    rw [if_pos hv]
    refine launchRows_eq (by omega) (by omega) (by omega) hb schedule
      (fun columns row => rmsnormVectorised rsqrt rows.toNat (cols.toNat/4) cols.toNat
        (normBlock a variant cols.toNat) eps columns (schedule.threads row) (scratch row) input
        weight row) _ output ?_
    intro warps hblock row hrow ho memory place
    simp only [hblock]
    rw [rmsnormVectorised_writes ho hrow hvectors]
    exact if_ctx_congr Iff.rfl (fun hin => reference_inRow rsqrt id id eps input weight hin)
      (fun _ => rfl)
  · have hb : normBlock a variant cols.toNat=blockSizeForRow cols.toNat := if_neg hv
    rw [if_neg hv]
    refine launchRows_eq (by omega) (by omega) (by omega) hb schedule
      (fun columns row => rmsnormNaive rsqrt rows.toNat cols.toNat
        (normBlock a variant cols.toNat) eps columns (schedule.threads row) (scratch row) input
        weight row) _ output ?_
    intro warps hblock row hrow ho memory place
    simp only [hblock]
    rw [rmsnormNaive,normRow_writes id id ho hrow]
    exact if_ctx_congr Iff.rfl (fun hin => reference_inRow rsqrt id id eps input weight hin)
      (fun _ => rfl)

/-- What `launch_rmsnorm` leaves at a place. -/
theorem launchRmsnorm_reference (a : Addresses) (variant : RMSNormKernel) (rows cols : ℤ)
    (hroom : LeavesRoom cols) (eps : K)
    (schedule : Schedule rows.toNat (normBlock a variant cols.toNat)) (scratch : ℕ → ℕ → K)
    (input weight output : ℕ → K) :
    ∃ after, launchRmsnorm rsqrt a variant rows cols eps schedule scratch input weight output=
        some after ∧
      ∀ place, after place=
        if place<rows.toNat*cols.toNat then
          rmsnormReference rsqrt id id cols.toNat eps input weight place
        else output place :=
  ⟨_,launchRmsnorm_eq rsqrt a variant rows cols hroom eps schedule scratch input weight output,
    fun _ => rfl⟩

/-- Two rows of three columns, which the scalar kernel takes. -/
theorem launchRmsnorm_reference_two :
    ∃ after, launchRmsnorm (fun x : ℚ => x) ⟨0,0,0⟩ .vectorised 2 3 1
        (ascending 2 (normBlock ⟨0,0,0⟩ .vectorised 3)) (fun _ _ => 0) (fun place => (place : ℚ))
        (fun _ => 1) (fun _ => 7)=some after ∧
      ∀ place, after place=
        if place<2*3 then
          rmsnormReference (fun x : ℚ => x) id id 3 1 (fun place => (place : ℚ)) (fun _ => 1) place
        else 7 :=
  launchRmsnorm_reference (fun x : ℚ => x) ⟨0,0,0⟩ .vectorised 2 3
    (by norm_num [LeavesRoom,maxBlockSize,intMax]) 1
    (ascending 2 (normBlock ⟨0,0,0⟩ .vectorised 3)) _ _ _ _

/-- For rows that leave room, in a 16-bit format the launch writes what the reference computes:
squares are added up in the wider format, and a result is converted once. -/
theorem launchRmsnormReduced_reference (toFloat : T → K) (fromFloat : K → T) (rows cols : ℤ)
    (hroom : LeavesRoom cols) (eps : K)
    (schedule : Schedule rows.toNat (blockSizeForRow cols.toNat))
    (scratch : ℕ → ℕ → K) (input weight output : ℕ → T) :
    ∃ after, launchRmsnormReduced rsqrt toFloat fromFloat rows cols eps schedule scratch input
        weight output=some after ∧
      ∀ place, after place=
        if place<rows.toNat*cols.toNat then
          rmsnormReference rsqrt toFloat fromFloat cols.toNat eps input weight place
        else output place := by
  unfold launchRmsnormReduced
  rw [LeavesRoom] at hroom
  by_cases hempty : rows≤0 ∨ cols≤0
  · exact ⟨output,if_pos hempty,fun place => (if_neg (no_places hempty place)).symm⟩
  rw [if_neg hempty]
  refine ⟨_,launchRows_eq (by omega) (by omega) (by omega) rfl schedule
    (fun columns row => rmsnormReduced rsqrt toFloat fromFloat rows.toNat cols.toNat
      (blockSizeForRow cols.toNat) eps columns (schedule.threads row) (scratch row) input weight
      row) (rmsnormReference rsqrt toFloat fromFloat cols.toNat eps input weight) output ?_,
    fun _ => rfl⟩
  intro warps hblock row hrow ho memory place
  simp only [hblock]
  rw [rmsnormReduced,normRow_writes toFloat fromFloat ho hrow]
  exact if_ctx_congr Iff.rfl
    (fun hin => reference_inRow rsqrt toFloat fromFloat eps input weight hin) (fun _ => rfl)

/-- Two rows of three columns, stored as integers. -/
theorem launchRmsnormReduced_reference_two :
    ∃ after, launchRmsnormReduced (fun x : ℚ => x) (fun n : ℤ => (n : ℚ)) (fun x => ⌊x⌋) 2 3 1
        (ascending 2 (blockSizeForRow 3)) (fun _ _ => 0) (fun place => (place : ℤ)) (fun _ => 1)
        (fun _ => 7)=some after ∧
      ∀ place, after place=
        if place<2*3 then
          rmsnormReference (fun x : ℚ => x) (fun n : ℤ => (n : ℚ)) (fun x => ⌊x⌋) 3 1
            (fun place => (place : ℤ)) (fun _ => 1) place
        else 7 :=
  launchRmsnormReduced_reference (fun x : ℚ => x) (fun n : ℤ => (n : ℚ)) (fun x => ⌊x⌋) 2 3
    (by norm_num [LeavesRoom,maxBlockSize,intMax]) 1 (ascending 2 (blockSizeForRow 3)) _ _ _ _

/-- The two arrays as one memory. -/
def NormBuffers.read (b : NormBuffers K) : Bool×ℕ → K
  | (true,place) => b.output place
  | (false,place) => b.residualOut place

/-- For rows that leave room `launch_fused_residual_rmsnorm` writes the sums to one array and
their reference normalisation to the other, also when the sums replace the residual. -/
theorem launchFusedResidualRmsnorm_eq (rows cols : ℤ) (hroom : LeavesRoom cols) (eps : K)
    (schedule : Schedule rows.toNat (blockSizeForRow cols.toNat)) (scratch : ℕ → ℕ → K)
    (input weight : ℕ → K) (residual : Option (ℕ → K)) (b : NormBuffers K) :
    launchFusedResidualRmsnorm rsqrt rows cols eps schedule scratch input residual weight b=
      some ⟨fun place => if place<rows.toNat*cols.toNat then
          rmsnormReference rsqrt id id cols.toNat eps
            (fun place => input place+residualAt residual b.residualOut place) weight place
        else b.output place,
        fun place => if place<rows.toNat*cols.toNat then
          input place+residualAt residual b.residualOut place else b.residualOut place⟩ := by
  unfold launchFusedResidualRmsnorm
  rw [LeavesRoom] at hroom
  by_cases hempty : rows≤0 ∨ cols≤0
  · rw [if_pos hempty]
    refine congrArg some (NormBuffers.ext (funext fun place => ?_) (funext fun place => ?_))
    · exact (if_neg (no_places hempty place)).symm
    · exact (if_neg (no_places hempty place)).symm
  rw [if_neg hempty,columnLoop_room (by omega) (by omega),Option.map_some]
  obtain ⟨warps,hpos,hle,hblock⟩ := blockSizeForRow_eq cols.toNat
  have hcols : 0<cols.toNat := by omega
  have hnodup : schedule.blocks.Nodup := schedule.blocks_perm.nodup_iff.mpr List.nodup_range
  have hread : ∀ cell, (schedule.blocks.foldl (fun b row =>
      fusedResidualRmsnorm rsqrt rows.toNat cols.toNat (blockSizeForRow cols.toNat) eps
        (columnsOf cols.toNat (blockSizeForRow cols.toNat)) (schedule.threads row) (scratch row)
        input residual weight row b) b).read cell=
      if cell.2<rows.toNat*cols.toNat then
        (if cell.1 then rmsnormReference rsqrt id id cols.toNat eps
          (fun place => input place+residualAt residual b.residualOut place) weight cell.2
        else input cell.2+residualAt residual b.residualOut cell.2)
      else b.read cell := by
    intro cell
    rw [foldl_owned NormBuffers.read (fun row b =>
        fusedResidualRmsnorm rsqrt rows.toNat cols.toNat (blockSizeForRow cols.toNat) eps
          (columnsOf cols.toNat (blockSizeForRow cols.toNat)) (schedule.threads row)
          (scratch row) input residual weight row b)
      (fun cell => if cell.1 then rmsnormReference rsqrt id id cols.toNat eps
          (fun place => input place+residualAt residual b.residualOut place) weight cell.2
        else input cell.2+residualAt residual b.residualOut cell.2)
      (fun row cell => InRow cols.toNat row cell.2) b hnodup
      (fun row other place hr ho => (inRow_div hr).symm.trans (inRow_div ho)) ?_ cell]
    · have hiff := exists_inRow_iff hcols schedule.blocks_perm cell.2
      by_cases hin : ∃ row∈schedule.blocks, InRow cols.toNat row cell.2
      · rw [if_pos hin,if_pos (hiff.mp hin)]
      · rw [if_neg hin,if_neg (fun hlt => hin (hiff.mpr hlt))]
    intro row hm s hs place
    have hrow : row<rows.toNat := List.mem_range.mp (schedule.blocks_perm.mem_iff.mp hm)
    have hordered : Ordered warps (schedule.threads row) := by
      refine ⟨hpos,hle,fun stage => ?_⟩
      rw [←hblock]
      exact schedule.threads_perm row stage
    -- no other row has changed what this one reads
    have hsum : ∀ i, InRow cols.toNat row i →
        residualAt residual s.residualOut i=residualAt residual b.residualOut i := by
      intro i hi
      cases residual with
      | none => exact hs (false,i) hi
      | some values => rfl
    simp only [hblock]
    obtain ⟨side,place⟩ := place
    cases side with
    | false =>
      refine (fusedResidualRmsnorm_sums hordered hrow input weight residual s place).trans ?_
      exact if_ctx_congr Iff.rfl (fun hin => congrArg (input place+·) (hsum place hin))
        (fun _ => rfl)
    | true =>
      refine (fusedResidualRmsnorm_writes hordered hrow input weight residual s place).trans ?_
      refine if_ctx_congr Iff.rfl (fun hin => ?_) (fun _ => rfl)
      refine Eq.trans ?_ (reference_inRow rsqrt id id eps
        (fun place => input place+residualAt residual b.residualOut place) weight hin)
      have hcol : ∀ col < cols.toNat, residualAt residual s.residualOut (row*cols.toNat+col)=
          residualAt residual b.residualOut (row*cols.toNat+col) :=
        fun col hc => hsum _ ⟨by omega,by omega⟩
      have hplace : place-row*cols.toNat<cols.toNat := by
        have hlow := hin.1
        have hhigh := hin.2
        omega
      simp only [normalised,id]
      rw [hcol _ hplace,Finset.sum_congr rfl (fun col hm => by
        rw [hcol col (Finset.mem_range.mp hm)])]
  have houtput := funext fun place => hread (true,place)
  have hsums := funext fun place => hread (false,place)
  exact congrArg some (NormBuffers.ext houtput hsums)

end Launches

end CudaForge.NormKernels
