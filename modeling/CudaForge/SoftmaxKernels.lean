import CudaForge.BlockReductions
import CudaForge.OnlineSoftmax
import CudaForge.RowMajor
import CudaForge.ThreadPhases
import CudaForge.WrappedIntegers

/-!
# The softmax kernels

`launch_softmax` and its three kernels in exact arithmetic. One block handles
one row: its threads go over the row's columns in strides, and reduce a maximum
and a sum. Device memory is a function of the index, the registers of a block
are functions of the thread. The blocks run in any order, and so do the threads
between two barriers. All three kernels write the softmax of every row.
-/

namespace CudaForge.SoftmaxKernels

open BlockReductions OnlineSoftmax RowMajor ThreadPhases WrappedIntegers

/-- `kMaxBlockSize`. -/
def maxBlockSize : ℕ := 1024

/-- The loop of `block_size_for_row`, for at most so many turns. -/
def growBlock (rowLength : ℕ) : ℕ → ℕ → ℕ
  | 0,size => size
  | turns+1,size =>
    if size<rowLength ∧ size < maxBlockSize then growBlock rowLength turns (size*2) else size

/-- `block_size_for_row`. -/
def blockSizeForRow (rowLength : ℕ) : ℕ := growBlock rowLength maxBlockSize warpSize

/-- `SoftmaxKernel`. -/
inductive SoftmaxKernel where
  /-- Three passes over global memory. -/
  | naive
  /-- The row is staged in shared memory. -/
  | sharedMemory
  /-- The maximum and the sum in one pass. -/
  | online
  deriving DecidableEq,Repr

/-- The bytes of a `float`. -/
def floatBytes : ℕ := 4

/-- The kernel that `launch_softmax` launches, on a device with so much shared
memory per block. -/
def selectKernel (maxSharedMemoryPerBlock : ℕ) (variant : SoftmaxKernel) (cols : ℕ) :
    SoftmaxKernel :=
  if variant=.sharedMemory ∧ maxSharedMemoryPerBlock < cols*floatBytes+warpSize*floatBytes then
    .online
  else variant

/-- The order in which a grid's blocks run, and in each of them the threads
between two barriers. -/
structure Schedule (rows blockDim : ℕ) where
  /-- The blocks. -/
  blocks : List ℕ
  /-- Every block runs once. -/
  blocks_perm : blocks.Perm (List.range rows)
  /-- The threads of a block, stage by stage. -/
  threads : ℕ → ℕ → List ℕ
  /-- Every thread runs once in a stage. -/
  threads_perm : ∀ row stage, (threads row stage).Perm (List.range blockDim)

/-- What a block finds in its shared memory. -/
structure SharedMemory (K : Type) where
  /-- `row_cache`. -/
  rowCache : ℕ → K
  /-- `scratch`. -/
  scratch : ℕ → K
  /-- `shared_max`. -/
  sharedMax : ℕ → K
  /-- `shared_sum`. -/
  sharedSum : ℕ → K

section Kernels

variable {K : Type} [Field K] [LinearOrder K] (exp : K → K) (fltMax : K)

/-- The registers that the online kernel carries along a row. -/
structure Registers (K : Type) where
  /-- `running_max`. -/
  runningMax : K
  /-- `running_sum`. -/
  runningSum : K

/-- The largest value of a thread's columns. -/
def localMax (values : ℕ → K) (columns : List ℕ) : K :=
  columns.foldl (fun largest col => max largest (values col)) (-fltMax)

/-- What a thread adds up over its columns. -/
def localSum (terms : ℕ → K) (columns : List ℕ) : K :=
  columns.foldl (fun sum col => sum+terms col) 0

/-- The columns of a block's threads in `for (int col = tid; col < cols; col += step)`,
as long as no counter overflows. -/
def columnLoop (cols blockDim : ℕ) : Option (ℕ → List ℕ) := intColumns intMax cols blockDim

/-- `softmax_naive`, in the block of a row, whose threads visit these columns. -/
def softmaxNaive (rows cols blockDim : ℕ) (columns threads : ℕ → List ℕ)
    (shared : SharedMemory K) (input : ℕ → K) (row : ℕ) (output : ℕ → K) : ℕ → K :=
  if rows≤row then output
  else
    let rowIn := fun col => input (row*cols+col)
    let reduced := blockReduceMax blockDim (fun thread => localMax fltMax rowIn (columns thread))
      shared.scratch (-fltMax)
    let rowMax := reduced.1
    let rowSum := (blockReduceSum blockDim (fun thread =>
      localSum (fun col => exp (rowIn col-rowMax thread)) (columns thread)) reduced.2).1
    let invSum := fun thread => 1/rowSum thread
    phase (fun col => row*cols+col)
      (fun thread col _ => exp (rowIn col-rowMax thread)*invSum thread)
      columns (threads 0) output

/-- `softmax_shared`, in the block of a row, whose threads visit these columns. -/
def softmaxShared (rows cols blockDim : ℕ) (columns threads : ℕ → List ℕ)
    (shared : SharedMemory K) (input : ℕ → K) (row : ℕ) (output : ℕ → K) : ℕ → K :=
  if rows≤row then output
  else
    let rowIn := fun col => input (row*cols+col)
    let rowCache := phase id (fun _ col _ => rowIn col) columns (threads 0) shared.rowCache
    let reduced := blockReduceMax blockDim (fun thread => localMax fltMax rowIn (columns thread))
      shared.scratch (-fltMax)
    let rowMax := reduced.1
    -- a column is read and rewritten by its own thread only
    let sums := fun thread =>
      localSum (fun col => exp (rowCache col-rowMax thread)) (columns thread)
    let rowCache := phase id (fun thread _ value => exp (value-rowMax thread)) columns (threads 1)
      rowCache
    let rowSum := (blockReduceSum blockDim sums reduced.2).1
    let invSum := fun thread => 1/rowSum thread
    phase (fun col => row*cols+col) (fun thread col _ => rowCache col*invSum thread) columns
      (threads 2) output

/-- The body of the online kernel's loop. -/
def Registers.visit (r : Registers K) (value : K) : Registers K :=
  let r := if r.runningMax<value then ⟨value,r.runningSum*exp (r.runningMax-value)⟩ else r
  {r with runningSum := r.runningSum+exp (value-r.runningMax)}

/-- What a thread carries over its columns. -/
def runningOver (values : ℕ → K) (columns : List ℕ) (start : Registers K) : Registers K :=
  columns.foldl (fun r col => r.visit exp (values col)) start

/-- `softmax_online`, in the block of a row, whose threads visit these columns. -/
def softmaxOnline (rows cols blockDim : ℕ) (columns threads : ℕ → List ℕ)
    (shared : SharedMemory K) (input : ℕ → K) (row : ℕ) (output : ℕ → K) : ℕ → K :=
  if rows≤row then output
  else
    let rowIn := fun col => input (row*cols+col)
    let running := fun thread => runningOver exp rowIn (columns thread) ⟨-fltMax,0⟩
    let rowMax := (blockReduceMax blockDim (fun thread => (running thread).runningMax)
      shared.sharedMax (-fltMax)).1
    let rescaled := fun thread =>
      (running thread).runningSum*exp ((running thread).runningMax-rowMax thread)
    let rowSum := (blockReduceSum blockDim rescaled shared.sharedSum).1
    let invSum := fun thread => 1/rowSum thread
    phase (fun col => row*cols+col)
      (fun thread col _ => exp (rowIn col-rowMax thread)*invSum thread)
      columns (threads 0) output

/-- The kernel of a variant. -/
def kernelOf : SoftmaxKernel → ℕ → ℕ → ℕ → (ℕ → List ℕ) → (ℕ → List ℕ) → SharedMemory K →
    (ℕ → K) → ℕ → (ℕ → K) → ℕ → K
  | .naive => softmaxNaive exp fltMax
  | .sharedMemory => softmaxShared exp fltMax
  | .online => softmaxOnline exp fltMax

/-- `launch_softmax`: the output once the blocks have run, each with whatever its
shared memory held. Nothing is said of it when a thread's counter overflows. -/
def launchSoftmax (maxSharedMemoryPerBlock : ℕ) (variant : SoftmaxKernel) (rows cols : ℤ)
    (schedule : Schedule rows.toNat (blockSizeForRow cols.toNat))
    (shared : ℕ → SharedMemory K) (input output : ℕ → K) : Option (ℕ → K) :=
  if rows≤0 ∨ cols≤0 then some output
  else
    let selected := selectKernel maxSharedMemoryPerBlock variant cols.toNat
    (columnLoop cols.toNat (blockSizeForRow cols.toNat)).map (fun columns =>
      schedule.blocks.foldl (fun output row =>
        kernelOf exp fltMax selected rows.toNat cols.toNat (blockSizeForRow cols.toNat) columns
          (schedule.threads row) (shared row) input row output) output)

end Kernels

section Blocks

variable {rowLength turns size : ℕ}

/-- The loop doubles a number of warps that is a power of two. -/
theorem growBlock_warps (rowLength turns : ℕ) (hj : ∃ j ≤ 5, size=2^j*warpSize) :
    ∃ j ≤ 5, growBlock rowLength turns size=2^j*warpSize := by
  induction turns generalizing size with
  | zero => exact hj
  | succ turns ih =>
    rw [growBlock]
    split
    · next hlt =>
      refine ih ?_
      obtain ⟨j,hle,rfl⟩ := hj
      have hne : j≠5 := by
        rintro rfl
        exact absurd hlt.2 (by decide)
      exact ⟨j+1,by omega,by rw [pow_succ]; ring⟩
    · exact hj

/-- A block has whole warps, at most as many as a warp has lanes. -/
theorem blockSizeForRow_eq (rowLength : ℕ) :
    ∃ warps, 0<warps ∧ warps≤warpSize ∧ blockSizeForRow rowLength=warps*warpSize := by
  obtain ⟨j,hj,he⟩ := growBlock_warps rowLength maxBlockSize
    ⟨0,Nat.zero_le 5,(Nat.one_mul warpSize).symm⟩
  exact ⟨2^j,Nat.two_pow_pos j,Nat.pow_le_pow_right (by decide) hj,he⟩

/-- A block's columns, when the last of them leaves room for one more step. -/
theorem columnLoop_eq {cols : ℕ} (hcols : 0<cols) :
    columnLoop cols (blockSizeForRow cols)=
      if cols+blockSizeForRow cols ≤ intMax+1 then some (columnsOf cols (blockSizeForRow cols))
      else none := by
  obtain ⟨warps,hpos,_,hblock⟩ := blockSizeForRow_eq cols
  refine intColumns_eq intMax hcols ?_
  rw [hblock]
  exact Nat.mul_pos hpos (by decide)

/-- A block has no more threads than a block may have. -/
theorem blockSizeForRow_le (rowLength : ℕ) : blockSizeForRow rowLength ≤ maxBlockSize := by
  obtain ⟨warps,_,hle,hblock⟩ := blockSizeForRow_eq rowLength
  rw [hblock]
  exact Nat.mul_le_mul_right warpSize hle

/-- A row that leaves room for one more step of the largest block overflows no counter. -/
theorem columnLoop_room {cols : ℕ} (hcols : 0<cols) (hroom : cols+maxBlockSize ≤ intMax+1) :
    columnLoop cols (blockSizeForRow cols)=some (columnsOf cols (blockSizeForRow cols)) := by
  have hle := blockSizeForRow_le cols
  rw [columnLoop_eq hcols,if_pos (by omega)]

end Blocks

section Sums

variable {K : Type} [Field K]

/-- A thread's sum is the sum over its columns. -/
theorem localSum_eq (terms : ℕ → K) (columns : List ℕ) :
    localSum terms columns=(columns.map terms).sum := by
  have hstart : ∀ start, columns.foldl (fun sum col => sum+terms col) start=
      start+(columns.map terms).sum := by
    induction columns with
    | nil =>
      intro start
      exact (add_zero start).symm
    | cons col columns ih =>
      intro start
      rw [List.foldl_cons,ih,List.map_cons,List.sum_cons,add_assoc]
  exact (hstart 0).trans (zero_add _)

/-- What a block adds up over its threads' columns is the sum over the row. -/
theorem blockSum_eq {cols warps : ℕ} (hpos : 0<warps) (hm : warps≤warpSize) {sums : ℕ → K}
    (terms shared : ℕ → K) (hsums : ∀ thread < warps*warpSize,
      sums thread=((columnsOf cols (warps*warpSize) thread).map terms).sum) (thread : ℕ) :
    (blockReduceSum (warps*warpSize) sums shared).1 thread=∑ col ∈ Finset.range cols,terms col := by
  rw [blockReduceSum_eq hm,
    ←sum_columnsOf cols (Nat.mul_pos hpos (show 0<warpSize by decide)) terms]
  exact Finset.sum_congr rfl (fun other ho => hsums other (Finset.mem_range.mp ho))

end Sums

section Rows

variable {K : Type} [Field K] [LinearOrder K] {exp : K → K} {fltMax : K}

/-- The online loop: its sum is relative to the maximum that it ends with. -/
theorem runningOver_sum (h : Exponential exp) (values : ℕ → K) (columns : List ℕ)
    (start : Registers K) :
    (runningOver exp values columns start).runningSum=
      start.runningSum*exp (start.runningMax-(runningOver exp values columns start).runningMax)+
        (columns.map (fun col =>
          exp (values col-(runningOver exp values columns start).runningMax))).sum := by
  induction columns generalizing start with
  | nil =>
    change start.runningSum=start.runningSum*exp (start.runningMax-start.runningMax)+0
    rw [h.self,mul_one,add_zero]
  | cons col columns ih =>
    have hsame : runningOver exp values (col::columns) start=
        runningOver exp values columns (start.visit exp (values col)) := rfl
    rw [hsame,ih]
    generalize (runningOver exp values columns (start.visit exp (values col))).runningMax=m
    rw [List.map_cons,List.sum_cons,←add_assoc]
    congr 1
    rw [Registers.visit]
    split
    · rw [add_mul,mul_assoc,h.chain,h.chain]
    · rw [add_mul,h.chain]

variable {rows cols warps row : ℕ} {threads : ℕ → List ℕ} {shared : SharedMemory K}
  {input output : ℕ → K}

/-- The place belongs to the row. -/
def InRow (cols row place : ℕ) : Prop := row*cols≤place ∧ place<row*cols+cols

instance (cols row place : ℕ) : Decidable (InRow cols row place) :=
  inferInstanceAs (Decidable (_ ∧ _))

omit [Field K] [LinearOrder K] in
/-- The final pass writes the row and nothing else. -/
theorem write_row {step : ℕ} (hs : 0<step) {order : List ℕ} (hp : order.Perm (List.range step))
    {rewrites : ℕ → ℕ → K → K} {value : ℕ → K}
    (hv : ∀ thread, ∀ col < cols, ∀ old, rewrites thread col old=value col) (place : ℕ) :
    phase (fun col => row*cols+col) rewrites (columnsOf cols step) order output place=
      if InRow cols row place then value (place-row*cols) else output place := by
  split
  · next hin =>
    obtain ⟨hlow,hhigh⟩ := hin
    have hcol : place-row*cols<cols := by omega
    have he : row*cols+(place-row*cols)=place := by omega
    have hinj : Function.Injective (fun col => row*cols+col) := add_right_injective (row*cols)
    have hw := phase_column rewrites output hinj hs hp hcol
    simp only [he] at hw
    exact hw.trans (hv _ _ hcol _)
  · next hout =>
    refine phase_outside rewrites output hp ?_
    intro col hcol he
    exact hout ⟨by omega,by omega⟩

/-- The threads' order in every stage of a block of so many warps. -/
structure Ordered (warps : ℕ) (threads : ℕ → List ℕ) : Prop where
  positive : 0<warps
  le_warpSize : warps≤warpSize
  perm : ∀ stage, (threads stage).Perm (List.range (warps*warpSize))

/-- The threads are not none. -/
theorem Ordered.threads_pos (ho : Ordered warps threads) : 0<warps*warpSize :=
  Nat.mul_pos ho.positive (by decide)

/-- The softmax of a row is written to its places. -/
def Writes (exp : K → K) (cols row : ℕ) (input output after : ℕ → K) : Prop :=
  ∀ place, after place=
    if InRow cols row place then
      softmax exp (fun col => input (row*cols+col)) cols (place-row*cols)
    else output place

/-- `softmax_naive` writes the softmax of its row. -/
theorem softmaxNaive_writes (h : Exponential exp) (ho : Ordered warps threads) (hrow : row<rows) :
    Writes exp cols row input output
      (softmaxNaive exp fltMax rows cols (warps*warpSize) (columnsOf cols (warps*warpSize)) threads
        shared input row output) := by
  intro place
  simp only [softmaxNaive,if_neg (Nat.not_le.mpr hrow)]
  refine write_row ho.threads_pos (ho.perm 0) ?_ place
  intro thread col hcol old
  rw [blockSum_eq ho.positive ho.le_warpSize (fun col => exp (input (row*cols+col)-
    (blockReduceMax (warps*warpSize) (fun thread => localMax fltMax
      (fun col => input (row*cols+col)) (columnsOf cols (warps*warpSize) thread)) shared.scratch
        (-fltMax)).1 thread))]
  · exact softmax_shift h (fun col => input (row*cols+col)) _ cols col
  · intro other _
    exact localSum_eq _ _

/-- `softmax_shared` writes the softmax of its row. -/
theorem softmaxShared_writes (h : Exponential exp) (ho : Ordered warps threads)
    (hrow : row<rows) :
    Writes exp cols row input output
      (softmaxShared exp fltMax rows cols (warps*warpSize) (columnsOf cols (warps*warpSize)) threads
        shared input row output) := by
  intro place
  simp only [softmaxShared,if_neg (Nat.not_le.mpr hrow)]
  refine write_row ho.threads_pos (ho.perm 2) ?_ place
  intro thread col hcol old
  have hfill : ∀ col < cols, phase id (fun _ col _ => input (row*cols+col))
      (columnsOf cols (warps*warpSize)) (threads 0) shared.rowCache col=input (row*cols+col) :=
    fun col hcol => phase_column _ shared.rowCache Function.injective_id ho.threads_pos
      (ho.perm 0) hcol
  have huniform : ∀ other, (blockReduceMax (warps*warpSize) (fun thread => localMax fltMax
      (fun col => input (row*cols+col)) (columnsOf cols (warps*warpSize) thread)) shared.scratch
        (-fltMax)).1 other=(blockReduceMax (warps*warpSize) (fun thread => localMax fltMax
      (fun col => input (row*cols+col)) (columnsOf cols (warps*warpSize) thread)) shared.scratch
        (-fltMax)).1 thread := fun _ => rfl
  generalize blockReduceMax (warps*warpSize) (fun thread => localMax fltMax
    (fun col => input (row*cols+col)) (columnsOf cols (warps*warpSize) thread)) shared.scratch
      (-fltMax)=reduced at huniform ⊢
  have hvalue : phase id (fun thread _ value => exp (value-reduced.1 thread))
      (columnsOf cols (warps*warpSize)) (threads 1) (phase id (fun _ col _ => input (row*cols+col))
        (columnsOf cols (warps*warpSize)) (threads 0) shared.rowCache) col=
      exp (input (row*cols+col)-reduced.1 thread) := by
    refine (phase_column _ _ Function.injective_id ho.threads_pos (ho.perm 1) hcol).trans ?_
    rw [id,hfill col hcol,huniform]
  rw [hvalue,blockSum_eq ho.positive ho.le_warpSize
    (fun col => exp (input (row*cols+col)-reduced.1 thread))]
  · exact softmax_shift h (fun col => input (row*cols+col)) _ cols col
  · intro other hlt
    rw [localSum_eq,huniform]
    refine congrArg List.sum (List.map_congr_left ?_)
    intro col hm
    rw [hfill col ((mem_columnsOf hlt).mp hm).1]

/-- `softmax_online` writes the softmax of its row. -/
theorem softmaxOnline_writes (h : Exponential exp) (ho : Ordered warps threads)
    (hrow : row<rows) :
    Writes exp cols row input output
      (softmaxOnline exp fltMax rows cols (warps*warpSize) (columnsOf cols (warps*warpSize)) threads
        shared input row output) := by
  intro place
  simp only [softmaxOnline,if_neg (Nat.not_le.mpr hrow)]
  refine write_row ho.threads_pos (ho.perm 0) ?_ place
  intro thread col hcol old
  have huniform : ∀ other, (blockReduceMax (warps*warpSize) (fun thread => (runningOver exp
      (fun col => input (row*cols+col)) (columnsOf cols (warps*warpSize) thread)
        ⟨-fltMax,0⟩).runningMax) shared.sharedMax (-fltMax)).1 other=
      (blockReduceMax (warps*warpSize) (fun thread => (runningOver exp
      (fun col => input (row*cols+col)) (columnsOf cols (warps*warpSize) thread)
        ⟨-fltMax,0⟩).runningMax) shared.sharedMax (-fltMax)).1 thread := fun _ => rfl
  generalize blockReduceMax (warps*warpSize) (fun thread => (runningOver exp
    (fun col => input (row*cols+col)) (columnsOf cols (warps*warpSize) thread)
      ⟨-fltMax,0⟩).runningMax) shared.sharedMax (-fltMax)=reduced at huniform ⊢
  rw [blockSum_eq ho.positive ho.le_warpSize
    (fun col => exp (input (row*cols+col)-reduced.1 thread))]
  · exact softmax_shift h (fun col => input (row*cols+col)) _ cols col
  · intro other _
    rw [runningOver_sum h,zero_mul,zero_add,huniform,←List.sum_map_mul_right]
    refine congrArg List.sum (List.map_congr_left ?_)
    intro col _
    exact h.chain _ _ _

/-- Whichever kernel is launched writes the softmax of its row. -/
theorem kernelOf_writes (h : Exponential exp) (ho : Ordered warps threads) (hrow : row<rows)
    {blockDim : ℕ} (hb : blockDim=warps*warpSize) (kernel : SoftmaxKernel) :
    Writes exp cols row input output
      (kernelOf exp fltMax kernel rows cols blockDim (columnsOf cols blockDim) threads shared input
        row output) := by
  subst hb
  cases kernel with
  | naive => exact softmaxNaive_writes h ho hrow
  | sharedMemory => exact softmaxShared_writes h ho hrow
  | online => exact softmaxOnline_writes h ho hrow

end Rows

section Launches

variable {K : Type} [Field K] [LinearOrder K] {exp : K → K}

/-- The place of a column in a row. -/
theorem inRow_iff {cols row col other : ℕ} (hc : col<cols) :
    InRow cols other (row*cols+col) ↔ other=row := by
  constructor
  · rintro ⟨hlow,hhigh⟩
    rcases Nat.lt_trichotomy other row with hlt|he|hgt
    · have hle := Nat.mul_le_mul_right cols (Nat.succ_le_of_lt hlt)
      rw [Nat.succ_mul] at hle
      omega
    · exact he
    · have hle := Nat.mul_le_mul_right cols (Nat.succ_le_of_lt hgt)
      rw [Nat.succ_mul] at hle
      omega
  · rintro rfl
    exact ⟨by omega,by omega⟩

/-- Once no counter overflows, every variant writes the softmax of each row. -/
theorem launchSoftmax_eq (h : Exponential exp) (fltMax : K) {rows cols : ℤ} (hrows : 0<rows)
    (hcols : 0<cols) (maxSharedMemoryPerBlock : ℕ) (variant : SoftmaxKernel)
    (schedule : Schedule rows.toNat (blockSizeForRow cols.toNat)) (shared : ℕ → SharedMemory K)
    (input output : ℕ → K) :
    launchSoftmax exp fltMax maxSharedMemoryPerBlock variant rows cols schedule shared input
        output=
      if cols.toNat+blockSizeForRow cols.toNat ≤ intMax+1 then
        some (fun place => if ∃ row∈schedule.blocks, InRow cols.toNat row place then
          softmax exp (fun col => input (place/cols.toNat*cols.toNat+col)) cols.toNat
            (place%cols.toNat)
        else output place)
      else none := by
  obtain ⟨warps,hpos,hle,hblock⟩ := blockSizeForRow_eq cols.toNat
  have hblocks := schedule.blocks_perm
  have hthreads : ∀ row stage,
      (schedule.threads row stage).Perm (List.range (warps*warpSize)) := by
    intro row stage
    rw [←hblock]
    exact schedule.threads_perm row stage
  rw [launchSoftmax,if_neg (by omega)]
  dsimp only
  rw [columnLoop_eq (by omega),apply_ite (Option.map _),Option.map_some,Option.map_none]
  refine if_congr Iff.rfl (congrArg some (funext fun place => ?_)) rfl
  refine foldl_regions (fun row => kernelOf exp fltMax
    (selectKernel maxSharedMemoryPerBlock variant cols.toNat) rows.toNat cols.toNat
      (blockSizeForRow cols.toNat) (columnsOf cols.toNat (blockSizeForRow cols.toNat))
      (schedule.threads row) (shared row) input row)
    (fun place => softmax exp (fun col => input (place/cols.toNat*cols.toNat+col)) cols.toNat
      (place%cols.toNat)) (InRow cols.toNat) (fun row hm memory place => ?_) output place
  rw [kernelOf_writes h ⟨hpos,hle,hthreads row⟩ (List.mem_range.mp (hblocks.mem_iff.mp hm))
    hblock]
  split
  · next hin =>
    have hdiv : place/cols.toNat=row := by
      rw [Nat.div_eq_of_lt_le hin.1]
      rw [Nat.succ_mul]
      exact hin.2
    have hmod : place%cols.toNat=place-row*cols.toNat := by
      have he := Nat.div_add_mod' place cols.toNat
      rw [hdiv] at he
      omega
    rw [hdiv,hmod]
  · rfl

/-- What a launch is to leave: the softmax of each row at its places, and every other
place as it was. -/
def WritesRows (exp : K → K) (rows cols : ℕ) (input output after : ℕ → K) : Prop :=
  (∀ row < rows, ∀ col < cols, after (row*cols+col)=
    exp (input (row*cols+col))/∑ other ∈ Finset.range cols,exp (input (row*cols+other))) ∧
  ∀ place, rows*cols≤place → after place=output place

/-- Whatever the device's shared memory, each variant writes the softmax of every row
and nothing else, if and only if the last column leaves room in an `int` for one more
step of the block. -/
theorem launchSoftmax_writes (h : Exponential exp) (fltMax : K) (rows cols : ℤ) (hrows : 0<rows)
    (hcols : 0<cols) (maxSharedMemoryPerBlock : ℕ) (variant : SoftmaxKernel)
    (schedule : Schedule rows.toNat (blockSizeForRow cols.toNat)) (shared : ℕ → SharedMemory K)
    (input output : ℕ → K) :
    (∃ after, launchSoftmax exp fltMax maxSharedMemoryPerBlock variant rows cols schedule shared
        input output=some after ∧ WritesRows exp rows.toNat cols.toNat input output after) ↔
      cols.toNat+blockSizeForRow cols.toNat ≤ intMax+1 := by
  have hblocks := schedule.blocks_perm
  rw [launchSoftmax_eq h fltMax hrows hcols]
  constructor
  · rintro ⟨after,hafter,_⟩
    by_contra hfit
    rw [if_neg hfit] at hafter
    exact absurd hafter (Option.some_ne_none after).symm
  · intro hfit
    refine ⟨_,if_pos hfit,?_,?_⟩
    · intro row hr col hc
      have hin : ∃ other∈schedule.blocks, InRow cols.toNat other (row*cols.toNat+col) :=
        ⟨row,hblocks.mem_iff.mpr (List.mem_range.mpr hr),(inRow_iff hc).mpr rfl⟩
      refine (if_pos hin).trans ?_
      rw [place_div hc,place_mod hc]
      rfl
    · intro place hp
      refine if_neg ?_
      rintro ⟨row,hm,_,hhigh⟩
      have hr := List.mem_range.mp (hblocks.mem_iff.mp hm)
      have hle := Nat.mul_le_mul_right cols.toNat (Nat.succ_le_of_lt hr)
      rw [Nat.succ_mul] at hle
      omega

/-- Blocks and threads in the order of their indices. -/
def ascending (rows blockDim : ℕ) : Schedule rows blockDim :=
  ⟨List.range rows,.refl _,fun _ _ => List.range blockDim,fun _ _ => .refl _⟩

end Launches

/-- Two rows of three columns, which one warp covers. -/
theorem launchSoftmax_writes_two :
    (∃ after, launchSoftmax Real.exp 340282346638528859811704183484516925440 0 .sharedMemory 2 3
        (ascending 2 (blockSizeForRow 3)) (fun _ => ⟨fun _ => 0,fun _ => 0,fun _ => 0,fun _ => 0⟩)
        (fun place => (place : ℝ)) (fun _ => 0)=some after ∧
      WritesRows Real.exp 2 3 (fun place => (place : ℝ)) (fun _ => 0) after) ↔
      3+blockSizeForRow 3 ≤ intMax+1 :=
  launchSoftmax_writes ⟨Real.exp_pos,Real.exp_add⟩ _ 2 3 (by decide) (by decide) 0 .sharedMemory
    (ascending 2 (blockSizeForRow 3)) _ (fun place => (place : ℝ)) (fun _ => 0)

/-- A row as long as an `int` can count: the last thread's counter overflows. -/
theorem launchSoftmax_overflows :
    ¬∃ after, launchSoftmax Real.exp 340282346638528859811704183484516925440 49152 .online 1
        2147483647 (ascending (1 : ℤ).toNat (blockSizeForRow (2147483647 : ℤ).toNat))
        (fun _ => ⟨fun _ => 0,fun _ => 0,fun _ => 0,fun _ => 0⟩) (fun _ => 0) (fun _ => 0)=
          some after ∧
      WritesRows Real.exp (1 : ℤ).toNat (2147483647 : ℤ).toNat (fun _ => 0) (fun _ => 0) after := by
  rintro ⟨after,hafter,_⟩
  rw [launchSoftmax_eq ⟨Real.exp_pos,Real.exp_add⟩ _ Int.one_pos (by norm_num),if_neg] at hafter
  · exact absurd hafter (Option.some_ne_none after).symm
  · obtain ⟨warps,hpos,_,hblock⟩ := blockSizeForRow_eq (2147483647 : ℤ).toNat
    have hcols : (2147483647 : ℤ).toNat=2147483647 := Int.toNat_natCast 2147483647
    have hwarp : warpSize=32 := rfl
    rw [hblock,hcols,hwarp,intMax]
    omega

end CudaForge.SoftmaxKernels
