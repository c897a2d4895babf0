import CudaForge.NormKernels

/-!
# The softmax kernels for 16-bit storage

`softmax_reduced`, instantiated for the two 16-bit formats: values are converted
when they are read, maxima and sums are taken in the wider format, and a result is
converted once, when it is stored. The conversions are arbitrary functions.
-/

namespace CudaForge.ReducedSoftmax

open BlockReductions OnlineSoftmax RowMajor ThreadPhases SoftmaxKernels NormKernels
open WrappedIntegers

variable {K T : Type} [Field K] [LinearOrder K] (exp : K → K) (fltMax : K)

/-- `softmax_reduced`, in the block of a row, whose threads visit these columns. -/
def softmaxReduced (toFloat : T → K) (fromFloat : K → T) (rows cols blockDim : ℕ)
    (columns threads : ℕ → List ℕ) (scratch : ℕ → K) (input : ℕ → T) (row : ℕ)
    (output : ℕ → T) : ℕ → T :=
  if rows≤row then output
  else
    let rowIn := fun col => toFloat (input (row*cols+col))
    let reduced := blockReduceMax blockDim (fun thread => localMax fltMax rowIn (columns thread))
      scratch (-fltMax)
    let rowMax := reduced.1
    let rowSum := (blockReduceSum blockDim (fun thread =>
      localSum (fun col => exp (rowIn col-rowMax thread)) (columns thread)) reduced.2).1
    let invSum := fun thread => 1/rowSum thread
    phase (fun col => row*cols+col)
      (fun thread col _ => fromFloat (exp (rowIn col-rowMax thread)*invSum thread)) columns
      (threads 0) output

/-- What `launch_softmax_half` and `launch_softmax_bf16` do with the conversions of
their formats. Nothing is said of the output when a thread's counter overflows. -/
def launchSoftmaxReduced (toFloat : T → K) (fromFloat : K → T) (rows cols : ℤ)
    (schedule : Schedule rows.toNat (blockSizeForRow cols.toNat)) (scratch : ℕ → ℕ → K)
    (input output : ℕ → T) : Option (ℕ → T) :=
  if rows≤0 ∨ cols≤0 then some output
  else (columnLoop cols.toNat (blockSizeForRow cols.toNat)).map (fun columns =>
    schedule.blocks.foldl (fun output row =>
      softmaxReduced exp fltMax toFloat fromFloat rows.toNat cols.toNat
        (blockSizeForRow cols.toNat) columns (schedule.threads row) (scratch row) input row
        output) output)

section Halves

variable {Half : Type} (half2float : Half → K) (float2half : K → Half)

/-- `launch_softmax_half`. -/
def launchSoftmaxHalf (rows cols : ℤ)
    (schedule : Schedule rows.toNat (blockSizeForRow cols.toNat)) (scratch : ℕ → ℕ → K)
    (input output : ℕ → Half) : Option (ℕ → Half) :=
  launchSoftmaxReduced exp fltMax half2float float2half rows cols schedule scratch input output

end Halves

section BFloats

variable {BFloat : Type} (bfloat162float : BFloat → K) (float2bfloat16 : K → BFloat)

/-- `launch_softmax_bf16`. -/
def launchSoftmaxBf16 (rows cols : ℤ)
    (schedule : Schedule rows.toNat (blockSizeForRow cols.toNat)) (scratch : ℕ → ℕ → K)
    (input output : ℕ → BFloat) : Option (ℕ → BFloat) :=
  launchSoftmaxReduced exp fltMax bfloat162float float2bfloat16 rows cols schedule scratch input
    output

end BFloats

/-- The softmax of the converted values of a row, converted once. -/
def roundedSoftmax (toFloat : T → K) (fromFloat : K → T) (cols : ℕ) (input : ℕ → T) (place : ℕ) :
    T :=
  fromFloat (softmax exp (fun col => toFloat (input (place/cols*cols+col))) cols (place%cols))

variable {exp fltMax}

/-- A block writes its row and nothing else. -/
theorem softmaxReduced_writes (h : Exponential exp) (toFloat : T → K) (fromFloat : K → T)
    {rows cols warps row : ℕ} {threads : ℕ → List ℕ} (ho : Ordered warps threads) (hrow : row<rows)
    (scratch : ℕ → K) (input output : ℕ → T) (place : ℕ) :
    softmaxReduced exp fltMax toFloat fromFloat rows cols (warps*warpSize)
        (columnsOf cols (warps*warpSize)) threads scratch input row output place=
      if InRow cols row place then roundedSoftmax exp toFloat fromFloat cols input place
      else output place := by
  simp only [softmaxReduced,if_neg (Nat.not_le.mpr hrow)]
  have hwrite := @write_row T cols row output _ ho.threads_pos _ (ho.perm 0) (fun thread col _ =>
      fromFloat (exp (toFloat (input (row*cols+col))-(blockReduceMax (warps*warpSize)
        (fun thread => localMax fltMax (fun col => toFloat (input (row*cols+col)))
          (columnsOf cols (warps*warpSize) thread)) scratch (-fltMax)).1 thread)*
        (1/(blockReduceSum (warps*warpSize) (fun thread => localSum (fun col =>
          exp (toFloat (input (row*cols+col))-(blockReduceMax (warps*warpSize)
            (fun thread => localMax fltMax (fun col => toFloat (input (row*cols+col)))
              (columnsOf cols (warps*warpSize) thread)) scratch (-fltMax)).1 thread))
          (columnsOf cols (warps*warpSize) thread)) (blockReduceMax (warps*warpSize)
            (fun thread => localMax fltMax (fun col => toFloat (input (row*cols+col)))
              (columnsOf cols (warps*warpSize) thread)) scratch (-fltMax)).2).1 thread)))
    (fun col => fromFloat (softmax exp (fun col => toFloat (input (row*cols+col))) cols col)) ?_
    place
  · refine hwrite.trans (if_ctx_congr Iff.rfl (fun hin => ?_) (fun _ => rfl))
    have hd := Nat.div_add_mod' place cols
    rw [inRow_div hin] at hd
    have hcol : place-row*cols=place%cols := by omega
    rw [roundedSoftmax,hcol,inRow_div hin]
  · intro thread col hcol old
    refine congrArg fromFloat ?_
    rw [blockSum_eq ho.positive ho.le_warpSize (fun col => exp (toFloat (input (row*cols+col))-
      (blockReduceMax (warps*warpSize) (fun thread => localMax fltMax
        (fun col => toFloat (input (row*cols+col))) (columnsOf cols (warps*warpSize) thread))
        scratch (-fltMax)).1 thread))]
    · exact softmax_shift h (fun col => toFloat (input (row*cols+col))) _ cols col
    · intro other _
      exact localSum_eq _ _

/-- For rows that leave room in an `int` for one more step of the largest block, and
whatever schedule and conversions, the 16-bit launch writes the softmax of each row of
converted values, converted once, and nothing else. -/
theorem launchSoftmaxReduced_writes (h : Exponential exp) (fltMax : K) (toFloat : T → K)
    (fromFloat : K → T) (rows cols : ℤ) (hroom : cols+maxBlockSize ≤ intMax+1)
    (schedule : Schedule rows.toNat (blockSizeForRow cols.toNat)) (scratch : ℕ → ℕ → K)
    (input output : ℕ → T) :
    launchSoftmaxReduced exp fltMax toFloat fromFloat rows cols schedule scratch input output=
      some (fun place => if place<rows.toNat*cols.toNat then
        roundedSoftmax exp toFloat fromFloat cols.toNat input place
      else output place) := by
  unfold launchSoftmaxReduced
  by_cases hempty : rows≤0 ∨ cols≤0
  · rw [if_pos hempty]
    exact congrArg some (funext fun place => (if_neg (no_places hempty place)).symm)
  rw [if_neg hempty,columnLoop_room (by omega) (by omega),Option.map_some]
  refine congrArg some (funext fun place => ?_)
  obtain ⟨warps,hpos,hle,hblock⟩ := blockSizeForRow_eq cols.toNat
  refine foldl_rows (by omega) schedule.blocks_perm (fun row output =>
      softmaxReduced exp fltMax toFloat fromFloat rows.toNat cols.toNat
        (blockSizeForRow cols.toNat) (columnsOf cols.toNat (blockSizeForRow cols.toNat))
        (schedule.threads row) (scratch row) input row output)
    (roundedSoftmax exp toFloat fromFloat cols.toNat input) ?_ output place
  intro row hrow memory place
  have hordered : Ordered warps (schedule.threads row) := by
    refine ⟨hpos,hle,fun stage => ?_⟩
    rw [←hblock]
    exact schedule.threads_perm row stage
  simp only [hblock]
  exact softmaxReduced_writes h toFloat fromFloat hordered hrow _ input memory place

/-- Two rows of three columns, stored as integers. -/
theorem launchSoftmaxReduced_writes_two :
    launchSoftmaxReduced Real.exp 340282346638528859811704183484516925440 (fun n : ℤ => (n : ℝ))
        (fun x => ⌊x⌋) 2 3 (ascending 2 (blockSizeForRow 3)) (fun _ _ => 0)
        (fun place => (place : ℤ)) (fun _ => 7)=
      some (fun place => if place<2*3 then
        roundedSoftmax Real.exp (fun n : ℤ => (n : ℝ)) (fun x => ⌊x⌋) 3
          (fun place => (place : ℤ)) place
      else 7) :=
  launchSoftmaxReduced_writes ⟨Real.exp_pos,Real.exp_add⟩ _ _ _ 2 3 (by decide)
    (ascending 2 (blockSizeForRow 3)) _ _ _

end CudaForge.ReducedSoftmax
