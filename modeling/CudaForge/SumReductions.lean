import CudaForge.HalvingTrees
import CudaForge.SoftmaxKernels
import CudaForge.WrappedIntegers

/-!
# The sum reductions

`launch_reduce_sum` with its three kernels, and `launch_row_sum`, in exact
arithmetic. A thread reads elements of its own; the naive kernel adds each of
them to the output atomically, the other two reduce a block first, by halving in
shared memory or by shuffles, and its first thread adds what came out. Atomic
additions take effect in any order. Each element is read by one thread of the
grid, and the output grows by the sum of all.
-/

namespace CudaForge.SumReductions

open BarrierPrograms BlockReductions HalvingTrees SoftmaxKernels ThreadPhases
open WrappedIntegers

/-- `ReductionKernel`. -/
inductive ReductionKernel where
  /-- One atomic addition per element. -/
  | naive
  /-- A tree in shared memory. -/
  | sharedMemory
  /-- Shuffles within a warp. -/
  | warpOptimised
  deriving DecidableEq,Repr

/-- `reduction_grid_size`, on a device with so many multiprocessors. -/
def reductionGridSize (smCount : ℤ) (count blockSize : ℕ) : ℤ :=
  let byOccupancy := max 1 (wrap (smCount*8))
  let bySize := wrap (ceilDiv count blockSize : ℕ)
  max 1 (min byOccupancy (max 1 bySize))

/-- The blocks that a variant is launched with. -/
def gridOf (smCount : ℤ) (count : ℕ) : ReductionKernel → ℤ
  | .naive => wrap (ceilDiv count defaultBlockSize : ℕ)
  | .sharedMemory => reductionGridSize smCount count defaultBlockSize
  | .warpOptimised => reductionGridSize smCount count defaultBlockSize

/-- The elements that a thread reads, one after another. -/
def elementsOf (count blockDim gridDim : ℕ) (kernel : ReductionKernel) (block thread : ℕ) :
    List ℕ :=
  let index := block*blockDim+thread
  match kernel with
  | .naive => if index<count then [index] else []
  | .sharedMemory => columnsOf count (blockDim*gridDim) index
  | .warpOptimised => columnsOf count (blockDim*gridDim) index

section Kernels

variable {M : Type} [AddCommMonoid M]

/-- What a thread adds up over its elements. -/
def accumulate (input : ℕ → M) (elements : List ℕ) : M :=
  elements.foldl (fun sum i => sum+input i) 0

/-- `reduce_sum_naive`, in a block: what its threads add to the output. -/
def reduceSumNaive (input : ℕ → M) (count blockDim gridDim block : ℕ) : List M :=
  (List.range blockDim).flatMap (fun thread =>
    (elementsOf count blockDim gridDim .naive block thread).map input)

/-- The first stage of `reduce_sum_shared`: a thread puts what it has added up into
its slot. -/
def fillTile (input : ℕ → M) (count blockDim gridDim block thread : ℕ) : Stage (List M) ℕ M :=
  fun added _ => (added,[(thread,accumulate input
    (elementsOf count blockDim gridDim .sharedMemory block thread))])

/-- The last stage: the first thread adds the first slot to the output. -/
def addTile (thread : ℕ) : Stage (List M) ℕ M := fun added tile =>
  (if thread=0 then added++[tile 0] else added,[])

/-- The stages of `reduce_sum_shared` between its barriers. A thread's register
holds what it has added to the output. -/
def sharedStages (input : ℕ → M) (count blockDim gridDim block : ℕ) :
    List (ℕ → Stage (List M) ℕ M) :=
  fillTile input count blockDim gridDim block::
    (halvings blockDim (blockDim/2)).map halve++[addTile]

/-- `reduce_sum_shared`, in a block: what its threads add to the output, if they
pass all barriers. -/
def reduceSumShared (input : ℕ → M) (count blockDim gridDim block : ℕ)
    (order : ℕ → List ℕ) (tile : ℕ → M) : Option (List M) :=
  let stages := sharedStages input count blockDim gridDim block
  (runPrograms order stages.length 0 (fun thread => stages.map (fun stage => stage thread))
    ⟨fun _ => [],tile,[]⟩).map (fun s => (List.range blockDim).flatMap s.registers)

/-- `reduce_sum_warp`, in a block: what its first thread adds to the output. -/
def reduceSumWarp (input : ℕ → M) (count blockDim gridDim block : ℕ) (shared : ℕ → M) : List M :=
  let reduced := warpReduceSum (fun thread =>
    accumulate input (elementsOf count blockDim gridDim .warpOptimised block thread))
  let stored := fun slot =>
    if slot*warpSize < blockDim then reduced (slot*warpSize) else shared slot
  let warpCount := ceilDiv blockDim warpSize
  -- only the first warp goes on
  let value := fun thread =>
    if thread%warpSize < warpCount then stored (thread%warpSize) else 0
  [warpReduceSum value 0]

/-- What a grid finds, block by block. -/
structure GridState (M : Type) where
  /-- The order of a block's threads, round by round. -/
  order : ℕ → ℕ → List ℕ
  /-- Every thread runs once in a round. -/
  order_perm : ∀ block round, (order block round).Perm (List.range defaultBlockSize)
  /-- What is in a block's shared memory. -/
  shared : ℕ → ℕ → M

/-- `launch_reduce_sum`: what is added to the output, unless the launch is refused
or a block gets stuck. -/
def launchReduceSum (smCount : ℤ) (variant : ReductionKernel) (grid : GridState M)
    (input : ℕ → M) (count : ℕ) : Option (List M) :=
  if count=0 then some []
  else
    let gridDim := gridOf smCount count variant
    if 0<gridDim then
      ((List.range gridDim.toNat).mapM (fun block => match variant with
        | .naive => some (reduceSumNaive input count defaultBlockSize gridDim.toNat block)
        | .sharedMemory => reduceSumShared input count defaultBlockSize gridDim.toNat block
            (grid.order block) (grid.shared block)
        | .warpOptimised => some
            (reduceSumWarp input count defaultBlockSize gridDim.toNat block (grid.shared block)))).map
        List.flatten
    else none

/-- `row_sum`, in the block of a row, whose threads visit these columns. -/
def rowSum (rows cols blockDim : ℕ) (columns : ℕ → List ℕ) (shared input : ℕ → M) (row : ℕ)
    (output : ℕ → M) : ℕ → M :=
  if rows≤row then output
  else
    let total := (blockReduceSum blockDim (fun thread =>
      accumulate (fun col => input (row*cols+col)) (columns thread)) shared).1
    -- the first thread stores the row's sum
    Function.update output row (total 0)

/-- `launch_row_sum`, whose blocks run in some order. Nothing is said of the output when a
thread's counter overflows. -/
def launchRowSum (rows cols : ℤ) (blocks : List ℕ) (shared : ℕ → ℕ → M) (input output : ℕ → M) :
    Option (ℕ → M) :=
  if rows≤0 ∨ cols≤0 then some output
  else
    (columnLoop cols.toNat (blockSizeForRow cols.toNat)).map (fun columns =>
      blocks.foldl (fun output row => rowSum rows.toNat cols.toNat
        (blockSizeForRow cols.toNat) columns (shared row) input row output) output)

end Kernels

section Readers

variable {count blockDim gridDim block thread element : ℕ}

/-- A thread of a grid that covers the elements. -/
structure Covers (count blockDim gridDim : ℕ) (kernel : ReductionKernel) : Prop where
  /-- A block has threads. -/
  threads : 0<blockDim
  /-- There are blocks. -/
  blocks : 0<gridDim
  /-- The naive kernel has a thread for each element. -/
  naive : kernel=.naive → count ≤ gridDim*blockDim

variable {kernel : ReductionKernel}

/-- Whom an element belongs to. -/
theorem mem_elementsOf (hc : Covers count blockDim gridDim kernel) (hb : block<gridDim)
    (ht : thread<blockDim) (he : element<count) :
    element∈elementsOf count blockDim gridDim kernel block thread ↔
      element%(gridDim*blockDim)=block*blockDim+thread := by
  have hplace := RowMajor.place_lt hb ht
  cases kernel with
  | naive =>
    rw [Nat.mod_eq_of_lt (he.trans_le (hc.naive rfl)),elementsOf]
    split
    · exact List.mem_singleton
    · next hout =>
      refine iff_of_false List.not_mem_nil (fun h => hout (h ▸ he))
  | sharedMemory | warpOptimised =>
    rw [elementsOf,Nat.mul_comm blockDim,mem_columnsOf hplace,and_iff_right he]

/-- A thread reads elements, each of them once. -/
theorem elementsOf_sound (hc : Covers count blockDim gridDim kernel) (hb : block<gridDim)
    (ht : thread<blockDim) : (elementsOf count blockDim gridDim kernel block thread).Nodup ∧
      ∀ element∈elementsOf count blockDim gridDim kernel block thread, element<count := by
  have hplace := RowMajor.place_lt hb ht
  cases kernel with
  | naive =>
    rw [elementsOf]
    split
    · next hin =>
      exact ⟨List.nodup_singleton _,fun element hm => List.mem_singleton.mp hm ▸ hin⟩
    · exact ⟨List.nodup_nil,fun element hm => absurd hm List.not_mem_nil⟩
  | sharedMemory | warpOptimised =>
    rw [elementsOf,Nat.mul_comm blockDim]
    exact ⟨columnsOf_nodup (Nat.mul_pos hc.blocks hc.threads),
      fun element hm => ((mem_columnsOf hplace).mp hm).1⟩

/-- Every element is read by one thread of the grid. -/
theorem element_reader (hc : Covers count blockDim gridDim kernel) (he : element<count) :
    ∃! reader : ℕ×ℕ, reader.1<gridDim ∧ reader.2<blockDim ∧
      element∈elementsOf count blockDim gridDim kernel reader.1 reader.2 := by
  have hpos : 0<gridDim*blockDim := Nat.mul_pos hc.blocks hc.threads
  set place := element%(gridDim*blockDim) with hp
  have hlt : place<gridDim*blockDim := Nat.mod_lt _ hpos
  have hblock : place/blockDim<gridDim := Nat.div_lt_of_lt_mul (Nat.mul_comm _ _ ▸ hlt)
  have hthread : place%blockDim<blockDim := Nat.mod_lt _ hc.threads
  refine ⟨(place/blockDim,place%blockDim),⟨hblock,hthread,?_⟩,?_⟩
  · rw [mem_elementsOf hc hblock hthread he,Nat.div_add_mod']
  · rintro ⟨block,thread⟩ ⟨hb,ht,hm⟩
    rw [mem_elementsOf hc hb ht he,←hp] at hm
    rw [hm,RowMajor.place_div ht,RowMajor.place_mod ht]

variable {M : Type} [AddCommMonoid M]

/-- What a thread adds up is the sum over its elements. -/
theorem accumulate_eq (input : ℕ → M) (elements : List ℕ) :
    accumulate input elements=(elements.map input).sum := by
  have hstart : ∀ start, elements.foldl (fun sum i => sum+input i) start=
      start+(elements.map input).sum := by
    induction elements with
    | nil =>
      intro start
      exact (add_zero start).symm
    | cons i elements ih =>
      intro start
      rw [List.foldl_cons,ih,List.map_cons,List.sum_cons,add_assoc]
  exact (hstart 0).trans (zero_add _)

/-- A sum over a list of the first numbers. -/
theorem sum_map_range (n : ℕ) (f : ℕ → M) : ((List.range n).map f).sum=∑ i ∈ Finset.range n,f i :=
  (List.sum_toFinset f List.nodup_range).symm.trans
    (Finset.sum_congr (List.toFinset_range n) (fun _ _ => rfl))

/-- What all threads of the grid add up is the sum of the elements. -/
theorem sum_elementsOf (hc : Covers count blockDim gridDim kernel) (input : ℕ → M) :
    ∑ block ∈ Finset.range gridDim,∑ thread ∈ Finset.range blockDim,
        ((elementsOf count blockDim gridDim kernel block thread).map input).sum=
      ∑ element ∈ Finset.range count,input element := by
  cases kernel with
  | naive =>
    have hone : ∀ block thread,
        ((elementsOf count blockDim gridDim .naive block thread).map input).sum=
          if block*blockDim+thread<count then input (block*blockDim+thread) else 0 := by
      intro block thread
      rw [elementsOf]
      split
      · exact List.sum_singleton
      · rfl
    simp only [hone]
    rw [←WarpReductions.sum_warps blockDim gridDim (fun i => if i<count then input i else 0),
      WarpReductions.sum_padded (hc.naive rfl)
        (fun i _ hi => if_neg (Nat.not_lt.mpr hi))]
    exact Finset.sum_congr rfl (fun i hi => if_pos (Finset.mem_range.mp hi))
  | sharedMemory | warpOptimised =>
    have hpos : 0<gridDim*blockDim := Nat.mul_pos hc.blocks hc.threads
    rw [←sum_columnsOf count hpos input,WarpReductions.sum_warps]
    simp only [elementsOf,Nat.mul_comm blockDim]

end Readers

section Blocks

variable {M : Type} [AddCommMonoid M] {count gridDim block : ℕ}

/-- Behind the first stage a slot holds what its thread has added up. -/
theorem fillTile_memory {blockDim : ℕ} {input : ℕ → M} {order : List ℕ}
    {s : BlockState ℕ (List M) ℕ M} (hp : order.Perm (List.range blockDim)) {thread : ℕ}
    (ht : thread<blockDim) :
    (runStage (fillTile input count blockDim gridDim block) order s).memory thread=
      ((elementsOf count blockDim gridDim .sharedMemory block thread).map input).sum := by
  have hn : order.Nodup := hp.nodup_iff.mpr List.nodup_range
  rw [runStage_memory hn (fun _ _ _ _ => rfl),←accumulate_eq]
  refine storeAll_value ?_ ?_
  · refine List.mem_map.mpr ⟨(thread,accumulate input
      (elementsOf count blockDim gridDim .sharedMemory block thread)),?_,rfl⟩
    exact List.mem_flatMap.mpr ⟨thread,hp.mem_iff.mpr (List.mem_range.mpr ht),
      List.mem_singleton_self _⟩
  · intro store hm he
    obtain ⟨other,_,hstore⟩ := List.mem_flatMap.mp hm
    obtain rfl := List.mem_singleton.mp hstore
    obtain rfl : other=thread := he
    rfl

/-- It leaves the registers as they are. -/
theorem fillTile_registers {blockDim : ℕ} {input : ℕ → M} {order : List ℕ}
    {s : BlockState ℕ (List M) ℕ M} (hn : order.Nodup) :
    (runStage (fillTile input count blockDim gridDim block) order s).registers=s.registers := by
  rw [runStage_eq hn (fun _ _ _ _ => rfl)]
  funext thread
  exact ite_self (s.registers thread)

omit [AddCommMonoid M] in
/-- In the last stage the first thread adds what is in the first slot. -/
theorem addTile_registers {order : List ℕ} {s : BlockState ℕ (List M) ℕ M} (hn : order.Nodup)
    (hs : s.registers=fun _ => []) {thread : ℕ} (hm : thread∈order) :
    (runStage addTile order s).registers thread=if thread=0 then [s.memory 0] else [] := by
  have hstores : ∀ other, storesOf (addTile (M := M)) s other=[] := fun _ => rfl
  have happart : Apart (addTile (M := M)) order s := by
    intro other _ memory hsame
    have hzero : memory 0=s.memory 0 := by
      refine hsame 0 (fun third _ _ hstore => ?_)
      rw [hstores] at hstore
      exact absurd hstore List.not_mem_nil
    unfold addTile
    rw [hzero]
  rw [runStage_registers hn happart hm,hs]
  rfl

omit [AddCommMonoid M] in
/-- Only the first thread has something. -/
theorem flatMap_first {threads : ℕ} (hpos : 0<threads) (added : List M) :
    (List.range threads).flatMap (fun thread => if thread=0 then added else [])=added := by
  obtain ⟨n,rfl⟩ := Nat.exists_eq_succ_of_ne_zero (Nat.ne_of_gt hpos)
  have hrest : (List.range n).flatMap
      (fun thread => if thread.succ=0 then added else ([] : List M))=[] :=
    List.flatMap_eq_nil_iff.mpr (fun thread _ => if_neg (Nat.succ_ne_zero thread))
  rw [List.range_succ_eq_map,List.flatMap_cons,List.flatMap_map,hrest,if_pos rfl,
    List.append_nil]

/-- A block of `reduce_sum_shared` passes its barriers and adds the sum over its
threads. -/
theorem reduceSumShared_eq (input : ℕ → M) (k : ℕ) {order : ℕ → List ℕ}
    (hp : ∀ round, (order round).Perm (List.range (2^(k+1)))) (tile : ℕ → M) :
    reduceSumShared input count (2^(k+1)) gridDim block order tile=
      some [∑ thread ∈ Finset.range (2^(k+1)),
        ((elementsOf count (2^(k+1)) gridDim .sharedMemory block thread).map input).sum] := by
  have hn : ∀ round, (order round).Nodup := fun round => (hp round).nodup_iff.mpr List.nodup_range
  have hall : ∀ round, ∀ thread < 2^(k+1), thread∈order round :=
    fun round thread ht => (hp round).mem_iff.mpr (List.mem_range.mpr ht)
  have hhalf : 2^(k+1)/2=2^k := by rw [pow_succ,Nat.mul_div_cancel _ Nat.two_pos]
  have hk : k<2^(k+1) := (Nat.lt_succ_self k).trans Nat.lt_two_pow_self
  have hstages : sharedStages input count (2^(k+1)) gridDim block=
      (fillTile input count (2^(k+1)) gridDim block::(halvings (2^(k+1)) (2^k)).map halve)++
        [addTile] := by rw [sharedStages,hhalf]
  have hcut := @runPrograms_cut ℕ (List M) ℕ M _ _ order 0
    (fun round => List.ne_nil_of_mem (hall round 0 (Nat.two_pow_pos _)))
    (sharedStages input count (2^(k+1)) gridDim block)
    (by rw [hstages]; exact List.append_ne_nil_of_right_ne_nil _ (List.cons_ne_nil _ _))
    ⟨fun _ => [],tile,[]⟩
  obtain ⟨hmemory,hregisters⟩ := @runStages_halvings M (List M) _ order 1 (2^(k+1))
    (runStage (fillTile input count (2^(k+1)) gridDim block) (order 0) ⟨fun _ => [],tile,[]⟩)
    hn k (fun round slot hlt => hall round slot (hlt.trans (Nat.pow_lt_pow_succ Nat.one_lt_two))) hk
  rw [fillTile_registers (hn 0)] at hregisters
  rw [reduceSumShared,hcut,Option.map_some,hstages,runStages_append]
  change some ((List.range (2^(k+1))).flatMap (runStage addTile (order _) (runStages order 1
    ((halvings (2^(k+1)) (2^k)).map halve) (runStage (fillTile input count (2^(k+1)) gridDim block)
      (order 0) ⟨fun _ => [],tile,[]⟩))).registers)=_
  have hlast : ∀ round, ∀ thread∈List.range (2^(k+1)),
      (runStage addTile (order round) (runStages order 1 ((halvings (2^(k+1)) (2^k)).map halve)
        (runStage (fillTile input count (2^(k+1)) gridDim block) (order 0)
          ⟨fun _ => [],tile,[]⟩))).registers thread=
        if thread=0 then [∑ thread ∈ Finset.range (2^(k+1)),
          ((elementsOf count (2^(k+1)) gridDim .sharedMemory block thread).map input).sum]
        else [] := by
    intro round thread hm
    rw [addTile_registers (hn round) hregisters ((hp round).mem_iff.mpr hm),hmemory]
    refine if_congr Iff.rfl (congrArg (fun total => [total]) ?_) rfl
    exact Finset.sum_congr rfl (fun slot hs => fillTile_memory (hp 0) (Finset.mem_range.mp hs))
  rw [List.flatMap_congr (hlast _),flatMap_first (Nat.two_pow_pos (k+1))]

/-- What a block of `reduce_sum_warp` adds is the sum over its threads. -/
theorem reduceSumWarp_eq (input : ℕ → M) {warps : ℕ} (hm : warps≤warpSize) (shared : ℕ → M) :
    reduceSumWarp input count (warps*warpSize) gridDim block shared=
      [∑ thread ∈ Finset.range (warps*warpSize),
        ((elementsOf count (warps*warpSize) gridDim .warpOptimised block thread).map
          input).sum] := by
  have hpos : 0 < warpSize := by decide
  rw [reduceSumWarp]
  simp only [ceilDiv_warps]
  rw [warpReduceSum_stored hm (fun thread => accumulate input
    (elementsOf count (warps*warpSize) gridDim .warpOptimised block thread))]
  · simp only [accumulate_eq]
  · intro warp hw
    rw [Nat.mod_eq_of_lt (hw.trans_le hm),if_pos hw,
      if_pos (Nat.mul_lt_mul_of_pos_right hw hpos)]
  · intro lane hlane hw
    rw [Nat.mod_eq_of_lt hlane,if_neg (Nat.not_lt.mpr hw)]

/-- What a block of `reduce_sum_naive` adds sums up to the sum over its threads. -/
theorem reduceSumNaive_sum (input : ℕ → M) (blockDim : ℕ) :
    (reduceSumNaive input count blockDim gridDim block).sum=
      ∑ thread ∈ Finset.range blockDim,
        ((elementsOf count blockDim gridDim .naive block thread).map input).sum := by
  rw [reduceSumNaive,List.flatMap_def,List.sum_flatten,List.map_map]
  exact sum_map_range blockDim _

end Blocks

section Grids

variable {M : Type} [AddCommMonoid M] {smCount : ℤ} {count : ℕ}

/-- A reduction has at least one block. -/
theorem reductionGridSize_pos (smCount : ℤ) (count blockSize : ℕ) :
    0<reductionGridSize smCount count blockSize :=
  Int.lt_of_lt_of_le Int.zero_lt_one (le_max_left _ _)

/-- The blocks of a launch cover the elements. -/
theorem gridOf_covers (smCount : ℤ) (hcount : 1≤count) (hfit : ceilDiv count defaultBlockSize<2^31)
    (variant : ReductionKernel) : 0<gridOf smCount count variant ∧
      Covers count defaultBlockSize (gridOf smCount count variant).toNat variant := by
  have hthreads : 0<defaultBlockSize := by decide
  cases variant with
  | naive =>
    have hgrid : gridOf smCount count .naive=(ceilDiv count defaultBlockSize : ℕ) :=
      wrap_eq (by omega) (by omega)
    have hcover : count ≤ ceilDiv count defaultBlockSize*defaultBlockSize := by
      rw [ceilDiv,defaultBlockSize]
      omega
    have hpos : 0<ceilDiv count defaultBlockSize :=
      Nat.pos_of_mul_pos_right (Nat.lt_of_lt_of_le hcount hcover)
    rw [hgrid,Int.toNat_natCast]
    exact ⟨Int.natCast_pos.mpr hpos,hthreads,hpos,fun _ => hcover⟩
  | sharedMemory | warpOptimised =>
    have hpos := reductionGridSize_pos smCount count defaultBlockSize
    exact ⟨hpos,hthreads,Int.pos_iff_toNat_pos.mp hpos,fun h => absurd h (by decide)⟩

/-- Additions in any order add the sum. -/
theorem foldl_additions {order added : List M} (hp : order.Perm added) (output : M) :
    order.foldl (fun output value => output+value) output=output+added.sum := by
  rw [←hp.sum_eq]
  induction order generalizing output added with
  | nil => exact (add_zero output).symm
  | cons value order ih =>
    rw [List.foldl_cons,ih (.refl _),List.sum_cons,add_assoc]

/-- What the blocks of a launch add sums up to the sum of the elements. -/
theorem launchReduceSum_sum (hcount : 1≤count) (hfit : ceilDiv count defaultBlockSize<2^31)
    (variant : ReductionKernel) (grid : GridState M) (input : ℕ → M) :
    ∃ added, launchReduceSum smCount variant grid input count=some added ∧
      added.sum=∑ element ∈ Finset.range count,input element := by
  obtain ⟨hpos,hc⟩ := gridOf_covers smCount hcount hfit variant
  rw [launchReduceSum,if_neg (by omega)]
  dsimp only
  rw [if_pos hpos]
  generalize (gridOf smCount count variant).toNat=gridDim at hc ⊢
  rw [←sum_elementsOf hc input]
  have hflat : ∀ result : ℕ → List M, (∀ block, (result block).sum=
      ∑ thread ∈ Finset.range defaultBlockSize,
        ((elementsOf count defaultBlockSize gridDim variant block thread).map input).sum) →
      ((List.range gridDim).map result).flatten.sum=
        ∑ block ∈ Finset.range gridDim,∑ thread ∈ Finset.range defaultBlockSize,
          ((elementsOf count defaultBlockSize gridDim variant block thread).map input).sum := by
    intro result hresult
    rw [List.sum_flatten,List.map_map,←sum_map_range]
    exact congrArg List.sum (List.map_congr_left (fun block _ => hresult block))
  cases variant with
  | naive =>
    refine ⟨_,congrArg (Option.map List.flatten) (mapM_blocks (fun block _ => rfl)),?_⟩
    exact hflat _ (fun block => reduceSumNaive_sum input defaultBlockSize)
  | sharedMemory =>
    refine ⟨_,congrArg (Option.map List.flatten) (mapM_blocks (fun block _ =>
      reduceSumShared_eq input 7 (grid.order_perm block) (grid.shared block))),?_⟩
    exact hflat _ (fun block => List.sum_singleton)
  | warpOptimised =>
    refine ⟨_,congrArg (Option.map List.flatten) (mapM_blocks (fun block _ => rfl)),?_⟩
    refine hflat _ (fun block => ?_)
    have hwarps : defaultBlockSize=8*warpSize := rfl
    rw [hwarps,reduceSumWarp_eq input (by decide) (grid.shared block)]
    exact List.sum_singleton

end Grids

section Rows

variable {M : Type} [AddCommMonoid M] {rows cols row : ℕ}

/-- The block of a row stores the row's sum. -/
theorem rowSum_eq (hrow : row<rows) {warps : ℕ} (hpos : 0<warps) (hm : warps≤warpSize)
    (shared input output : ℕ → M) :
    rowSum rows cols (warps*warpSize) (columnsOf cols (warps*warpSize)) shared input row output=
      Function.update output row (∑ col ∈ Finset.range cols,input (row*cols+col)) := by
  rw [rowSum,if_neg (Nat.not_le.mpr hrow)]
  dsimp only
  rw [blockReduceSum_eq hm,←sum_columnsOf cols (Nat.mul_pos hpos (show 0<warpSize by decide))
    (fun col => input (row*cols+col))]
  simp only [accumulate_eq]

/-- Once no counter overflows, `launch_row_sum` stores the sum of every row, and
nothing else. -/
theorem launchRowSum_eq {rows cols : ℤ} (hrows : 0<rows) (hcols : 0<cols) {blocks : List ℕ}
    (hp : blocks.Perm (List.range rows.toNat)) (shared : ℕ → ℕ → M) (input output : ℕ → M) :
    launchRowSum rows cols blocks shared input output=
      if cols.toNat+blockSizeForRow cols.toNat ≤ intMax+1 then
        some (fun place => if place<rows.toNat then
          ∑ col ∈ Finset.range cols.toNat,input (place*cols.toNat+col)
        else output place)
      else none := by
  obtain ⟨warps,hpos,hle,hblock⟩ := blockSizeForRow_eq cols.toNat
  rw [launchRowSum,if_neg (by omega),columnLoop_eq (by omega),apply_ite (Option.map _),
    Option.map_some,Option.map_none]
  refine if_congr Iff.rfl (congrArg some (funext fun place => ?_)) rfl
  rw [foldl_regions
    (fun row => rowSum rows.toNat cols.toNat (blockSizeForRow cols.toNat)
      (columnsOf cols.toNat (blockSizeForRow cols.toNat)) (shared row) input row)
    (fun row => ∑ col ∈ Finset.range cols.toNat,input (row*cols.toNat+col))
    (fun row place => place=row)]
  · refine if_congr ?_ rfl rfl
    constructor
    · rintro ⟨row,hm,rfl⟩
      exact List.mem_range.mp (hp.mem_iff.mp hm)
    · intro hlt
      exact ⟨place,hp.mem_iff.mpr (List.mem_range.mpr hlt),rfl⟩
  · intro row hm memory other
    rw [hblock,rowSum_eq (List.mem_range.mp (hp.mem_iff.mp hm)) hpos hle,Function.update_apply]
    split
    · next he => rw [he]
    · rfl

end Rows

section Claims

variable {M : Type} [AddCommMonoid M]

/-- What the sum kernels are to do: the elements are added to the output once, in
whatever order the additions take effect, each read in one thread of the grid. -/
structure SumsOnce (smCount : ℤ) (variant : ReductionKernel) (grid : GridState M) (input : ℕ → M)
    (count : ℕ) : Prop where
  /-- What is added comes to the sum of the elements. -/
  total : ∃ added, launchReduceSum smCount variant grid input count=some added ∧
    ∀ order : List M, order.Perm added → ∀ output,
      order.foldl (fun output value => output+value) output=
        output+∑ element ∈ Finset.range count,input element
  /-- An element has one reader. -/
  reader : ∀ element < count, ∃! reader : ℕ×ℕ,
    reader.1<(gridOf smCount count variant).toNat ∧ reader.2<defaultBlockSize ∧
      element∈elementsOf count defaultBlockSize (gridOf smCount count variant).toNat variant
        reader.1 reader.2
  /-- A reader reads elements, each of them once. -/
  sound : ∀ block < (gridOf smCount count variant).toNat, ∀ thread < defaultBlockSize,
    (elementsOf count defaultBlockSize (gridOf smCount count variant).toNat variant block
      thread).Nodup ∧
    ∀ element∈elementsOf count defaultBlockSize (gridOf smCount count variant).toNat variant
      block thread, element<count

/-- Whatever the number of multiprocessors, each variant of `launch_reduce_sum` sums the
elements once. -/
theorem launchReduceSum_once {count : ℕ} (hcount : 1≤count)
    (hfit : ceilDiv count defaultBlockSize<2^31) (smCount : ℤ) (variant : ReductionKernel)
    (grid : GridState M) (input : ℕ → M) : SumsOnce smCount variant grid input count := by
  obtain ⟨_,hc⟩ := gridOf_covers smCount hcount hfit variant
  refine ⟨?_,fun element he => element_reader hc he,fun block hb thread ht =>
    elementsOf_sound hc hb ht⟩
  obtain ⟨added,hadded,hsum⟩ := launchReduceSum_sum hcount hfit variant grid input
  refine ⟨added,hadded,fun order hp output => ?_⟩
  rw [foldl_additions hp,hsum]

/-- What `launch_row_sum` is to leave: the sum of each row, and every other place as it
was. -/
def SumsRows (rows cols : ℤ) (blocks : List ℕ) (shared : ℕ → ℕ → M) (input output : ℕ → M) :
    Prop :=
  launchRowSum rows cols blocks shared input output=some (fun place =>
    if place<rows.toNat then ∑ col ∈ Finset.range cols.toNat,input (place*cols.toNat+col)
    else output place)

/-- The three kernels sum the elements once, and `launch_row_sum` sums every row, if and
only if the last column of a row leaves room in an `int` for one more step of the block. -/
theorem reductions_sum {count : ℕ} (hcount : 1≤count)
    (hfit : ceilDiv count defaultBlockSize<2^31) (smCount : ℤ)
    (grid : GridState M) (input : ℕ → M) {rows cols : ℤ} (hrows : 0<rows) (hcols : 0<cols)
    {blocks : List ℕ} (hblocks : blocks.Perm (List.range rows.toNat)) (shared : ℕ → ℕ → M)
    (output : ℕ → M) :
    ((∀ variant, SumsOnce smCount variant grid input count) ∧
      SumsRows rows cols blocks shared input output) ↔
      cols.toNat+blockSizeForRow cols.toNat ≤ intMax+1 := by
  rw [and_iff_right (fun variant => launchReduceSum_once hcount hfit smCount variant grid input),
    SumsRows,launchRowSum_eq hrows hcols hblocks]
  constructor
  · intro hsums
    by_contra hlong
    rw [if_neg hlong] at hsums
    exact absurd hsums (Option.some_ne_none _).symm
  · exact fun hroom => if_pos hroom

/-- Threads in the order of their indices. -/
def ascendingGrid : GridState M :=
  ⟨fun _ _ => List.range defaultBlockSize,fun _ _ => .refl _,fun _ _ => 0⟩

/-- Three hundred elements, and two rows of three. -/
theorem reductions_sum_small :
    ((∀ variant, SumsOnce 2 variant ascendingGrid (fun i => (i : ℚ)) 300) ∧
      SumsRows 2 3 [1,0] (fun _ _ => 7) (fun i => (i : ℚ)) (fun _ => 0)) ↔
      (3 : ℤ).toNat+blockSizeForRow (3 : ℤ).toNat ≤ intMax+1 :=
  reductions_sum (by decide) (by decide) 2 ascendingGrid (fun i => (i : ℚ)) (by decide)
    (by decide) (List.Perm.swap 0 1 []) (fun _ _ => 7) (fun _ => 0)

/-- One row as long as an `int` can count: the last thread's counter overflows. -/
theorem reductions_sum_overflow :
    ¬((∀ variant, SumsOnce 2 variant ascendingGrid (fun i => (i : ℚ)) 300) ∧
      SumsRows 1 2147483647 [0] (fun _ _ => 0) (fun i => (i : ℚ)) (fun _ => 0)) := by
  rintro ⟨_,hrow⟩
  rw [SumsRows,launchRowSum_eq Int.one_pos (by norm_num) (List.Perm.refl [0]),if_neg] at hrow
  · exact absurd hrow (Option.some_ne_none _).symm
  · obtain ⟨warps,hpos,_,hblock⟩ := blockSizeForRow_eq (2147483647 : ℤ).toNat
    have hcols : (2147483647 : ℤ).toNat=2147483647 := Int.toNat_natCast 2147483647
    have hwarp : warpSize=32 := rfl
    rw [hblock,hcols,hwarp,intMax]
    omega

end Claims

end CudaForge.SumReductions
