import CudaForge.LoraAgreement

/-!
# Products on the tensor cores

`launch_matmul_tensor_core` in exact arithmetic, with the rounding to TF32 given.
A warp owns a tile of sixteen by sixteen elements of the output and multiplies
fragments that it loads from global memory; a load or a store beyond a buffer,
and a warp whose lanes do not agree on their tile, end the launch. The warps run
in any order. A shape that the fragments do not tile is turned down, and so is by
the device a grid that is too long.
-/

namespace CudaForge.TensorCoreProducts

open BlockReductions LoraAgreement LoraKernels RowMajor ThreadPhases TiledProducts WarpReductions

/-- `kFragM`. -/
def fragM : ℕ := 16

/-- `kFragN`. -/
def fragN : ℕ := 16

/-- `kFragK`. -/
def fragK : ℕ := 8

/-- `kWarpsX`. -/
def warpsX : ℕ := 4

/-- `kWarpsY`. -/
def warpsY : ℕ := 4

/-- `tensor_core_shape_supported`. -/
def tensorCoreShapeSupported (m n k : ℤ) : Bool :=
  decide (0 < m) && decide (0 < n) && decide (0 < k) && decide (m%fragM=0) &&
    decide (n%fragN=0) && decide (k%fragK=0)

/-- A warp of the grid: `threadIdx.y`, and the warp of `threadIdx.x`. -/
structure Warp where
  /-- `blockIdx`. -/
  block : BlockIdx
  /-- `threadIdx.y`. -/
  y : ℕ
  /-- `threadIdx.x`, in warps. -/
  x : ℕ

/-- The warps of a grid. -/
def warpsOf (gridY gridX : ℕ) : List Warp :=
  (List.range gridY).flatMap (fun blockY => (List.range gridX).flatMap (fun blockX =>
    (List.range warpsY).flatMap (fun y => (List.range warpsX).map (fun x =>
      ⟨⟨blockY,blockX⟩,y,x⟩))))

/-- `tile_row` and `tile_col`, as a lane computes them. -/
def tileOf (warp : Warp) (lane : ℕ) : ℕ×ℕ :=
  let columnThread := warp.block.x*(warpsX*warpSize)+(warp.x*warpSize+lane)
  let rowWarp := warp.block.y*warpsY+warp.y
  let warpN := columnThread/warpSize
  let warpM := rowWarp
  (warpM*fragM,warpN*fragN)

/-- The tile of a warp: what its lanes do together is defined only when they agree. -/
def warpTile (warp : Warp) : Option (ℕ×ℕ) :=
  if ∀ lane < warpSize, tileOf warp lane=tileOf warp 0 then some (tileOf warp 0) else none

section Kernel

variable {K : Type} [CommRing K]

/-- The elements of a fragment, by row and column. -/
abbrev Fragment (K : Type) := ℕ → ℕ → K

/-- `load_matrix_sync`, of so many rows and columns out of a buffer of a size. -/
def loadMatrix (size : ℕ) (buffer : ℕ → K) (offset ldm rows cols : ℕ) : Option (Fragment K) :=
  if offset+(rows-1)*ldm+(cols-1) < size then
    some (fun row col => buffer (offset+row*ldm+col))
  else none

/-- The rounding of every element of a fragment. -/
def roundFragment (floatToTf32 : K → K) (fragment : Fragment K) : Fragment K :=
  fun row col => floatToTf32 (fragment row col)

/-- `mma_sync`. -/
def mmaSync (accumulator a b : Fragment K) : Fragment K :=
  fun row col => accumulator row col+∑ i ∈ Finset.range fragK,a row i*b i col

/-- The elements of a tile. -/
def tileCells : List (ℕ×ℕ) :=
  (List.range fragM).flatMap (fun row => (List.range fragN).map (fun col => (row,col)))

/-- `store_matrix_sync`, row-major, into a buffer of a size. -/
def storeMatrix (size : ℕ) (buffer : ℕ → K) (offset ldm : ℕ) (fragment : Fragment K) :
    Option (ℕ → K) :=
  if offset+(fragM-1)*ldm+(fragN-1) < size then
    some (scatter (fun cell : ℕ×ℕ => offset+cell.1*ldm+cell.2)
      (fun cell _ => fragment cell.1 cell.2) tileCells buffer)
  else none

/-- The loop of the kernel: a pair of fragments every `kFragK` columns of `a`. -/
def fragmentLoop (floatToTf32 : K → K) (m n k : ℕ) (a b : ℕ → K) (tileRow tileCol : ℕ) :
    Option (Fragment K) :=
  (columnsOf k fragK 0).foldlM (fun accumulator step => do
    let fragmentA ← loadMatrix (m*k) a (tileRow*k+step) k fragM fragK
    let fragmentB ← loadMatrix (k*n) b (step*n+tileCol) n fragK fragN
    pure (mmaSync accumulator (roundFragment floatToTf32 fragmentA)
      (roundFragment floatToTf32 fragmentB))) (fun _ _ => 0)

/-- `matmul_tf32_wmma`, in one warp. -/
def matmulTf32Wmma (floatToTf32 : K → K) (m n k : ℕ) (a b : ℕ → K) (c : ℕ → K) (warp : Warp) :
    Option (ℕ → K) := do
  let tile ← warpTile warp
  if m≤tile.1 ∨ n≤tile.2 then some c
  else do
    let accumulator ← fragmentLoop floatToTf32 m n k a b tile.1 tile.2
    storeMatrix (m*n) c (tile.1*n+tile.2) n accumulator

/-- The order in which the warps of a launch run. -/
structure WarpOrder (m n : ℤ) where
  /-- The warps. -/
  warps : List Warp
  /-- Every warp of the grid runs once. -/
  perm : warps.Perm (warpsOf (ceilDiv (m.toNat/fragM) warpsY) (ceilDiv (n.toNat/fragN) warpsX))

/-- How a launch ends. -/
inductive Launched (K : Type) where
  /-- It returns whether it has launched, and leaves an output. -/
  | returned (launched : Bool) (output : ℕ → K)
  /-- The device refuses the grid, which `CUDAFORGE_CHECK_LAUNCH` reports. -/
  | refused

/-- `launch_matmul_tensor_core`, on a device with or without the tensor cores that
it needs. -/
def launchMatmulTensorCore (floatToTf32 : K → K) (available : Bool) (m n k : ℤ)
    (order : WarpOrder m n) (a b c : ℕ → K) : Option (Launched K) :=
  if !tensorCoreShapeSupported m n k || !available then some (.returned false c)
  -- the columns of an `int` never make a grid too long in its first dimension
  else if ceilDiv (m.toNat/fragM) warpsY ≤ maxGridY then
    (order.warps.foldlM (matmulTf32Wmma floatToTf32 m.toNat n.toNat k.toNat a b) c).map
      (.returned true)
  else some .refused

end Kernel

section Warps

/-- The lanes of a warp agree on their tile. -/
theorem warpTile_eq (warp : Warp) : warpTile warp=
    some ((warp.block.y*warpsY+warp.y)*fragM,(warp.block.x*warpsX+warp.x)*fragN) := by
  have htile : ∀ lane < warpSize, tileOf warp lane=
      ((warp.block.y*warpsY+warp.y)*fragM,(warp.block.x*warpsX+warp.x)*fragN) := by
    intro lane hl
    have hcolumn : warp.block.x*(warpsX*warpSize)+(warp.x*warpSize+lane)=
        (warp.block.x*warpsX+warp.x)*warpSize+lane := by ring
    simp only [tileOf,hcolumn,place_div hl]
  have hfirst := htile 0 (by decide)
  rw [warpTile,if_pos (fun lane hl => (htile lane hl).trans hfirst.symm),hfirst]

/-- The warps of a grid. -/
theorem mem_warpsOf {gridY gridX : ℕ} {warp : Warp} : warp∈warpsOf gridY gridX ↔
    warp.block.y<gridY ∧ warp.block.x<gridX ∧ warp.y<warpsY ∧ warp.x<warpsX := by
  simp only [warpsOf,List.mem_flatMap,List.mem_map,List.mem_range]
  constructor
  · rintro ⟨blockY,hy,blockX,hx,y,hwy,x,hwx,rfl⟩
    exact ⟨hy,hx,hwy,hwx⟩
  · rintro ⟨hy,hx,hwy,hwx⟩
    exact ⟨_,hy,_,hx,_,hwy,_,hwx,rfl⟩

/-- The place of the output belongs to the warp's tile. -/
def InTile (m n : ℕ) (warp : Warp) (place : ℕ) : Prop :=
  place < m*n ∧ place/n/fragM=warp.block.y*warpsY+warp.y ∧
    place%n/fragN=warp.block.x*warpsX+warp.x

instance (m n : ℕ) (warp : Warp) (place : ℕ) : Decidable (InTile m n warp place) :=
  inferInstanceAs (Decidable (_ ∧ _))

/-- The tiles of a grid cover the output. -/
theorem exists_inTile_iff {m n : ℕ} (hn : 0 < n) {warps : List Warp}
    (hp : warps.Perm (warpsOf (ceilDiv (m/fragM) warpsY) (ceilDiv (n/fragN) warpsX)))
    (hm : m%fragM=0) (hc : n%fragN=0) (place : ℕ) :
    (∃ warp∈warps, InTile m n warp place) ↔ place < m*n := by
  constructor
  · rintro ⟨warp,_,hlt,_⟩
    exact hlt
  · intro hlt
    have hrow : place/n < m := Nat.div_lt_of_lt_mul (Nat.mul_comm m n ▸ hlt)
    have hcol : place%n < n := Nat.mod_lt place hn
    refine ⟨⟨⟨place/n/fragM/warpsY,place%n/fragN/warpsX⟩,place/n/fragM%warpsY,
      place%n/fragN%warpsX⟩,?_,hlt,(Nat.div_add_mod' _ _).symm,(Nat.div_add_mod' _ _).symm⟩
    refine hp.mem_iff.mpr (mem_warpsOf.mpr ?_)
    simp only [ceilDiv,fragM,fragN,warpsX,warpsY] at hm hc ⊢
    refine ⟨?_,?_,Nat.mod_lt _ (by decide),Nat.mod_lt _ (by decide)⟩
    · omega
    · omega

/-- A tile that begins within the output lies within it. -/
theorem tile_within {size side tile : ℕ} (hs : size%side=0) (ht : tile*side<size) :
    tile*side+side ≤ size := by
  obtain ⟨count,rfl⟩ := Nat.dvd_of_mod_eq_zero hs
  have hlt : tile<count := Nat.lt_of_mul_lt_mul_left (Nat.mul_comm tile side ▸ ht)
  have hle := Nat.mul_le_mul_right side (Nat.succ_le_of_lt hlt)
  rw [Nat.succ_mul] at hle
  rwa [Nat.mul_comm side count]

end Warps

section Fragments

/-- A loop whose bound its steps meet exactly. -/
theorem strideLoop_exact {step : ℕ} (hs : 0<step) (count : ℕ) :
    ∀ turns start, count≤turns → strideLoop (start+count*step) step turns start=
      (List.range count).map (fun i => start+i*step) := by
  induction count with
  | zero =>
    intro turns start _
    cases turns with
    | zero => rfl
    | succ turns =>
      rw [strideLoop,Nat.zero_mul,Nat.add_zero,if_neg (Nat.lt_irrefl start)]
      rfl
  | succ count ih =>
    intro turns start hle
    cases turns with
    | zero => exact absurd hle (Nat.not_succ_le_zero count)
    | succ turns =>
      have hlt : start<start+(count+1)*step :=
        Nat.lt_add_of_pos_right (Nat.mul_pos (Nat.succ_pos count) hs)
      have hbound : start+(count+1)*step=start+step+count*step := by
        rw [Nat.succ_mul]
        omega
      rw [strideLoop,if_pos hlt,hbound,ih turns (start+step) (Nat.le_of_succ_le_succ hle),
        List.range_succ_eq_map,List.map_cons,List.map_map,Nat.zero_mul,Nat.add_zero]
      refine congrArg (start::·) (List.map_congr_left (fun i _ => ?_))
      simp only [Function.comp_apply,Nat.succ_mul]
      omega

/-- The steps of the kernel's loop. -/
theorem columnsOf_exact {k : ℕ} (hk : k%fragK=0) :
    columnsOf k fragK 0=(List.range (k/fragK)).map (fun i => i*fragK) := by
  have hfrag : 0<fragK := by decide
  have he : 0+k/fragK*fragK=k := by
    have hd := Nat.div_add_mod' k fragK
    omega
  have h := strideLoop_exact hfrag (k/fragK) k 0 (Nat.div_le_self k fragK)
  rw [he] at h
  rw [columnsOf,h]
  exact List.map_congr_left (fun i _ => Nat.zero_add _)

variable {K : Type} [CommRing K] {floatToTf32 : K → K} {m n k tileRow tileCol : ℕ}

/-- The last element of a fragment that lies within a matrix lies within its buffer. -/
theorem fragment_within {rows cols row col height width : ℕ} (hr : row+height≤rows)
    (hc : col+width≤cols) (hh : 0<height) (hw : 0<width) :
    row*cols+col+(height-1)*cols+(width-1) < rows*cols := by
  have hrow : row*cols+(height-1)*cols=(row+(height-1))*cols := (Nat.add_mul _ _ _).symm
  have hlast : (row+(height-1)+1)*cols≤rows*cols := Nat.mul_le_mul_right cols (by omega)
  rw [Nat.succ_mul] at hlast
  omega

/-- What a step of the loop adds to an element. -/
def stepTerm (floatToTf32 : K → K) (n k : ℕ) (a b : ℕ → K) (tileRow tileCol row col step : ℕ) :
    K :=
  ∑ i ∈ Finset.range fragK,floatToTf32 (a (tileRow*k+step+row*k+i))*
    floatToTf32 (b (step*n+tileCol+i*n+col))

/-- Loads of a tile within both operands go through. -/
theorem fragmentLoop_steps (hrow : tileRow+fragM ≤ m) (hcol : tileCol+fragN ≤ n) (a b : ℕ → K)
    (steps : List ℕ) : ∀ (accumulator : Fragment K), (∀ step∈steps, step+fragK≤k) →
      steps.foldlM (fun accumulator step => do
        let fragmentA ← loadMatrix (m*k) a (tileRow*k+step) k fragM fragK
        let fragmentB ← loadMatrix (k*n) b (step*n+tileCol) n fragK fragN
        pure (mmaSync accumulator (roundFragment floatToTf32 fragmentA)
          (roundFragment floatToTf32 fragmentB))) accumulator=
      some (fun row col => accumulator row col+
        (steps.map (stepTerm floatToTf32 n k a b tileRow tileCol row col)).sum) := by
  have hfrag : 0<fragM ∧ 0<fragN ∧ 0<fragK := by decide
  induction steps with
  | nil =>
    intro accumulator _
    simp only [List.foldlM_nil,List.map_nil,List.sum_nil,add_zero]
    rfl
  | cons step steps ih =>
    intro accumulator hsteps
    have hstep := hsteps step List.mem_cons_self
    have hloadA : loadMatrix (m*k) a (tileRow*k+step) k fragM fragK=
        some (fun row col => a (tileRow*k+step+row*k+col)) :=
      if_pos (fragment_within hrow hstep hfrag.1 hfrag.2.2)
    have hloadB : loadMatrix (k*n) b (step*n+tileCol) n fragK fragN=
        some (fun row col => b (step*n+tileCol+row*n+col)) :=
      if_pos (fragment_within hstep hcol hfrag.2.2 hfrag.2.1)
    rw [List.foldlM_cons,hloadA,hloadB]
    refine (ih _ (fun other hm => hsteps other (List.mem_cons_of_mem _ hm))).trans ?_
    refine congrArg some (funext fun row => funext fun col => ?_)
    rw [List.map_cons,List.sum_cons,←add_assoc]
    rfl

/-- A warp ends its loop with the products of its tile. -/
theorem fragmentLoop_eq (hrow : tileRow+fragM ≤ m) (hcol : tileCol+fragN ≤ n) (hk : k%fragK=0)
    (a b : ℕ → K) : fragmentLoop floatToTf32 m n k a b tileRow tileCol=
      some (fun row col => ∑ i ∈ Finset.range k,floatToTf32 (a ((tileRow+row)*k+i))*
        floatToTf32 (b (i*n+(tileCol+col)))) := by
  have hwithin : ∀ step∈columnsOf k fragK 0, step+fragK≤k := by
    intro step hm
    rw [columnsOf_exact hk] at hm
    obtain ⟨i,hi,rfl⟩ := List.mem_map.mp hm
    have hle := Nat.mul_le_mul_right fragK (Nat.succ_le_of_lt (List.mem_range.mp hi))
    have hd := Nat.div_add_mod' k fragK
    rw [Nat.succ_mul] at hle
    omega
  rw [fragmentLoop,fragmentLoop_steps hrow hcol a b _ _ hwithin]
  refine congrArg some (funext fun row => funext fun col => ?_)
  have hcount : k/fragK*fragK=k := by
    have hd := Nat.div_add_mod' k fragK
    omega
  have hsum := sum_warps fragK (k/fragK) (fun i => floatToTf32 (a ((tileRow+row)*k+i))*
    floatToTf32 (b (i*n+(tileCol+col))))
  rw [hcount] at hsum
  rw [hsum,zero_add,columnsOf_exact hk,List.map_map,
    ←List.sum_toFinset _ List.nodup_range,List.toFinset_range]
  refine Finset.sum_congr rfl (fun step _ => ?_)
  rw [Function.comp_apply,stepTerm]
  refine Finset.sum_congr rfl (fun i _ => ?_)
  have ha : tileRow*k+step*fragK+row*k+i=(tileRow+row)*k+(step*fragK+i) := by ring
  have hb : step*fragK*n+tileCol+i*n+col=(step*fragK+i)*n+(tileCol+col) := by ring
  rw [ha,hb]

/-- The elements of a tile. -/
theorem mem_tileCells {cell : ℕ×ℕ} : cell∈tileCells ↔ cell.1<fragM ∧ cell.2<fragN := by
  simp only [tileCells,List.mem_flatMap,List.mem_map,List.mem_range]
  constructor
  · rintro ⟨row,hr,col,hc,rfl⟩
    exact ⟨hr,hc⟩
  · rintro ⟨hr,hc⟩
    exact ⟨cell.1,hr,cell.2,hc,rfl⟩

/-- A tile has every element once. -/
theorem tileCells_nodup : tileCells.Nodup := by
  have hp : (List.range fragM ×ˢ List.range fragN).Nodup :=
    List.nodup_range.product List.nodup_range
  exact hp

omit [CommRing K] in
/-- A store of a tile within the output writes its elements and nothing else. -/
theorem storeMatrix_eq (hrow : tileRow+fragM ≤ m) (hcol : tileCol+fragN ≤ n) (c : ℕ → K)
    (fragment : Fragment K) : ∃ output, storeMatrix (m*n) c (tileRow*n+tileCol) n fragment=
      some output ∧ ∀ place, output place=
        if place/n < tileRow+fragM ∧ tileRow≤place/n ∧ place%n < tileCol+fragN ∧
            tileCol≤place%n then
          fragment (place/n-tileRow) (place%n-tileCol)
        else c place := by
  have hfrag : 0<fragM ∧ 0<fragN := by decide
  refine ⟨_,if_pos (fragment_within hrow hcol hfrag.1 hfrag.2),fun place => ?_⟩
  have haddress : ∀ cell∈tileCells, (tileRow*n+tileCol+cell.1*n+cell.2)/n=tileRow+cell.1 ∧
      (tileRow*n+tileCol+cell.1*n+cell.2)%n=tileCol+cell.2 := by
    intro cell hm
    obtain ⟨_,hc⟩ := mem_tileCells.mp hm
    have he : tileRow*n+tileCol+cell.1*n+cell.2=(tileRow+cell.1)*n+(tileCol+cell.2) := by ring
    have hlt : tileCol+cell.2 < n := by omega
    rw [he]
    exact ⟨place_div hlt,place_mod hlt⟩
  have hnodup : (tileCells.map (fun cell : ℕ×ℕ => tileRow*n+tileCol+cell.1*n+cell.2)).Nodup := by
    refine List.Nodup.map_on (fun cell hm other ho h => ?_) tileCells_nodup
    have hc := haddress cell hm
    have hd := haddress other ho
    rw [h] at hc
    refine Prod.ext ?_ ?_
    · exact Nat.add_left_cancel (hc.1.symm.trans hd.1)
    · exact Nat.add_left_cancel (hc.2.symm.trans hd.2)
  split
  · next hin =>
    obtain ⟨hr,hrl,hc,hcl⟩ := hin
    have hcell : (place/n-tileRow,place%n-tileCol)∈tileCells :=
      mem_tileCells.mpr ⟨by omega,by omega⟩
    have happly := @scatter_apply _ K (fun cell : ℕ×ℕ => tileRow*n+tileCol+cell.1*n+cell.2)
      (fun cell _ => fragment cell.1 cell.2) tileCells c hnodup _ hcell
    have he : tileRow*n+tileCol+(place/n-tileRow)*n+(place%n-tileCol)=place := by
      have hd := Nat.div_add_mod' place n
      have hsplit : tileRow*n+(place/n-tileRow)*n=place/n*n := by
        rw [←Nat.add_mul,Nat.add_sub_cancel' hrl]
      omega
    simp only [he] at happly
    exact happly
  · next hout =>
    refine scatter_other ?_
    intro hm
    obtain ⟨cell,hc,he⟩ := List.mem_map.mp hm
    obtain ⟨hr,hl⟩ := mem_tileCells.mp hc
    obtain ⟨hdiv,hmod⟩ := haddress cell hc
    simp only [he] at hdiv hmod
    exact hout ⟨by omega,by omega,by omega,by omega⟩

end Fragments

section Launches

variable {K : Type} [CommRing K] {floatToTf32 : K → K} {m n k : ℕ}

/-- A warp writes the products of its tile and nothing else. -/
theorem matmulTf32Wmma_eq (hm : m%fragM=0) (hn : n%fragN=0) (hk : k%fragK=0) (a b c : ℕ → K)
    (warp : Warp) : ∃ output, matmulTf32Wmma floatToTf32 m n k a b c warp=some output ∧
      ∀ place, output place=
        if InTile m n warp place then
          product (fun i => floatToTf32 (a i)) (fun i => floatToTf32 (b i)) n k place
        else c place := by
  have htile := warpTile_eq warp
  by_cases hout : m≤(warp.block.y*warpsY+warp.y)*fragM ∨ n≤(warp.block.x*warpsX+warp.x)*fragN
  · refine ⟨c,?_,fun place => ?_⟩
    · rw [matmulTf32Wmma,htile]
      exact if_pos hout
    · rw [if_neg]
      rintro ⟨hlt,hr,hc⟩
      have hpos : 0 < n := Nat.pos_of_ne_zero (fun hz => by
        rw [hz,Nat.mul_zero] at hlt
        exact Nat.not_lt_zero place hlt)
      have hrow : place/n < m := Nat.div_lt_of_lt_mul (Nat.mul_comm m n ▸ hlt)
      have hcol : place%n < n := Nat.mod_lt place hpos
      have hrle := Nat.div_mul_le_self (place/n) fragM
      have hcle := Nat.div_mul_le_self (place%n) fragN
      rw [hr] at hrle
      rw [hc] at hcle
      omega
  have hrow : (warp.block.y*warpsY+warp.y)*fragM+fragM ≤ m := tile_within hm (by omega)
  have hcol : (warp.block.x*warpsX+warp.x)*fragN+fragN ≤ n := tile_within hn (by omega)
  obtain ⟨output,hstore,hplaces⟩ := storeMatrix_eq hrow hcol c (fun row col =>
    ∑ i ∈ Finset.range k,floatToTf32 (a (((warp.block.y*warpsY+warp.y)*fragM+row)*k+i))*
      floatToTf32 (b (i*n+((warp.block.x*warpsX+warp.x)*fragN+col))))
  refine ⟨output,?_,fun place => ?_⟩
  · rw [matmulTf32Wmma,htile,←hstore]
    change (if _ then _ else _)=_
    rw [if_neg hout,fragmentLoop_eq hrow hcol hk]
    rfl
  · have hfrag : fragM=16 ∧ fragN=16 := ⟨rfl,rfl⟩
    obtain ⟨hfm,hfn⟩ := hfrag
    have hpos : 0 < n := by omega
    have hcolumn := Nat.mod_lt place hpos
    have hiff : (place/n < (warp.block.y*warpsY+warp.y)*fragM+fragM ∧
        (warp.block.y*warpsY+warp.y)*fragM≤place/n ∧
        place%n < (warp.block.x*warpsX+warp.x)*fragN+fragN ∧
        (warp.block.x*warpsX+warp.x)*fragN≤place%n) ↔ InTile m n warp place := by
      rw [InTile,←Nat.div_lt_iff_lt_mul hpos]
      generalize warp.block.y*warpsY+warp.y=tileRow at hrow ⊢
      generalize warp.block.x*warpsX+warp.x=tileCol at hcol ⊢
      rw [hfm] at hrow ⊢
      rw [hfn] at hcol ⊢
      omega
    rw [hplaces]
    refine if_ctx_congr hiff (fun hin => ?_) (fun _ => rfl)
    obtain ⟨_,hrl,_,hcl⟩ := hiff.mpr hin
    rw [product]
    simp only [Nat.add_sub_cancel' hrl,Nat.add_sub_cancel' hcl]

omit [CommRing K] in
/-- Warps one after another, each of which writes places of its tile. -/
theorem foldlM_tiles {kernel : (ℕ → K) → Warp → Option (ℕ → K)} {value : ℕ → K}
    {warps : List Warp} (hkernel : ∀ c warp, ∃ output, kernel c warp=some output ∧
      ∀ place, output place=if InTile m n warp place then value place else c place) :
    ∀ c, ∃ output, warps.foldlM kernel c=some output ∧ ∀ place, output place=
      if ∃ warp∈warps, InTile m n warp place then value place else c place := by
  induction warps with
  | nil =>
    intro c
    refine ⟨c,rfl,fun place => ?_⟩
    rw [if_neg]
    rintro ⟨warp,hm,_⟩
    exact absurd hm List.not_mem_nil
  | cons warp warps ih =>
    intro c
    obtain ⟨first,hfirst,hplaces⟩ := hkernel c warp
    obtain ⟨output,hrest,hlater⟩ := ih first
    refine ⟨output,?_,fun place => ?_⟩
    · rw [List.foldlM_cons,hfirst]
      exact hrest
    rw [hlater,hplaces]
    by_cases hr : ∃ other∈warps, InTile m n other place
    · obtain ⟨other,hm,hin⟩ := hr
      rw [if_pos ⟨other,hm,hin⟩,if_pos ⟨other,List.mem_cons_of_mem _ hm,hin⟩]
    · rw [if_neg hr]
      by_cases hf : InTile m n warp place
      · rw [if_pos hf,if_pos ⟨warp,List.mem_cons_self,hf⟩]
      · rw [if_neg hf,if_neg]
        rintro ⟨other,hm,hin⟩
        rcases List.mem_cons.mp hm with rfl|hm
        · exact hf hin
        · exact hr ⟨other,hm,hin⟩

/-- The rows whose warps fit the second dimension of a grid. -/
theorem rowWarps_iff {m : ℤ} (hm : 0 < m) :
    ceilDiv (m.toNat/fragM) warpsY ≤ maxGridY ↔ m < 4194256 := by
  have hfrag : fragM=16 := rfl
  have hwarps : warpsY=4 := rfl
  have hgrid : maxGridY=65535 := rfl
  rw [ceilDiv,hfrag,hwarps,hgrid]
  omega

/-- The launch ends for every shape and in every order of its warps: no load or
store leaves its buffer. A shape that is supported has its output filled with the
product of the rounded operands, unless its rows make the grid too long; any other
is turned down and changes nothing. -/
theorem launchMatmulTensorCore_product (floatToTf32 : K → K) (available : Bool) (m n k : ℤ)
    (order : WarpOrder m n) (a b c : ℕ → K) :
    launchMatmulTensorCore floatToTf32 available m n k order a b c=some (
      if tensorCoreShapeSupported m n k && available then
        if m < 4194256 then
          .returned true (filled (m.toNat*n.toNat)
            (product (fun i => floatToTf32 (a i)) (fun i => floatToTf32 (b i)) n.toNat k.toNat) c)
        else .refused
      else .returned false c) := by
  unfold launchMatmulTensorCore
  by_cases hs : (tensorCoreShapeSupported m n k && available)=true
  · have hsupported : ¬(!tensorCoreShapeSupported m n k || !available)=true := by
      rw [←Bool.not_and,hs]
      exact Bool.false_ne_true
    rw [if_neg hsupported,if_pos hs]
    rw [Bool.and_eq_true] at hs
    have hshape := hs.1
    simp only [tensorCoreShapeSupported,Bool.and_eq_true,decide_eq_true_eq] at hshape
    obtain ⟨⟨⟨⟨⟨hm,hn⟩,hk⟩,hfm⟩,hfn⟩,hfk⟩ := hshape
    by_cases hgrid : m < 4194256
    · rw [if_pos ((rowWarps_iff hm).mpr hgrid),if_pos hgrid]
      have hmn : m.toNat%fragM=0 := by
        simp only [fragM] at hfm ⊢
        omega
      have hnn : n.toNat%fragN=0 := by
        simp only [fragN] at hfn ⊢
        omega
      have hkn : k.toNat%fragK=0 := by
        simp only [fragK] at hfk ⊢
        omega
      obtain ⟨output,hrun,hplaces⟩ := @foldlM_tiles K m.toNat n.toNat
        (matmulTf32Wmma floatToTf32 m.toNat n.toNat k.toNat a b) _ order.warps
        (fun c warp => matmulTf32Wmma_eq hmn hnn hkn a b c warp) c
      rw [hrun]
      refine congrArg (fun output => some (Launched.returned true output)) (funext fun place => ?_)
      rw [hplaces,filled]
      have hiff := exists_inTile_iff (by omega) order.perm hmn hnn place
      exact if_ctx_congr hiff (fun _ => rfl) (fun _ => rfl)
    · rw [if_neg (fun h => hgrid ((rowWarps_iff hm).mp h)),if_neg hgrid]
  · have hsupported : (!tensorCoreShapeSupported m n k || !available)=true := by
      rw [←Bool.not_and,Bool.not_eq_true']
      exact Bool.not_eq_true _ ▸ hs
    rw [if_pos hsupported,if_neg hs]

end Launches

end CudaForge.TensorCoreProducts
