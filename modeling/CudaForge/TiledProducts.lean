import CudaForge.LoraKernels
import CudaForge.RowMajor

/-!
# The tile loop

What the threads of a block have in their accumulators behind the tile loop that
`matmul_tiled` and `lora_fused` share. A turn adds the products of one pair of
tiles; zeros fill what a tile holds beyond the operands, so that a thread within
the output ends with its element of the product.
-/

namespace CudaForge.TiledProducts

open BarrierPrograms BlockReductions LoraKernels RowMajor

section Sums

variable {K : Type} [CommRing K]

/-- A loop that adds up the terms of a list. -/
theorem foldl_terms {α : Type} (terms : α → K) (l : List α) (start : K) :
    l.foldl (fun accumulator i => accumulator+terms i) start=start+(l.map terms).sum := by
  induction l generalizing start with
  | nil => exact (add_zero start).symm
  | cons i l ih => rw [List.foldl_cons,ih,List.map_cons,List.sum_cons,add_assoc]

/-- What a loop adds up. -/
theorem accumulate_eq (count : ℕ) (terms : ℕ → K) :
    accumulate count terms=∑ i ∈ Finset.range count,terms i := by
  rw [accumulate,foldl_terms,zero_add]
  exact (List.sum_toFinset terms List.nodup_range).symm.trans
    (Finset.sum_congr (List.toFinset_range count) (fun _ _ => rfl))

/-- An element of a product of two buffers in row-major order. -/
def product (left right : ℕ → K) (n k place : ℕ) : K :=
  ∑ i ∈ Finset.range k,left (place/n*k+i)*right (i*n+place%n)

/-- A term of the tiled product, with zeros where the tiles have them. -/
def tileTerm (left right : ℕ → K) (m n k row col i : ℕ) : K :=
  (if row < m ∧ i<k then left (row*k+i) else 0)*(if i<k ∧ col<n then right (i*n+col) else 0)

/-- The zeros of the last tile contribute nothing. -/
theorem sum_tileTerm {left right : ℕ → K} {m n k row col bound : ℕ} (hrow : row < m) (hcol : col<n)
    (hk : k≤bound) : ∑ i ∈ Finset.range bound,tileTerm left right m n k row col i=
      ∑ i ∈ Finset.range k,left (row*k+i)*right (i*n+col) := by
  have hzero : ∀ i∈Finset.range bound, i∉Finset.range k →
      tileTerm left right m n k row col i=0 := by
    intro i _ hi
    have hge : ¬i<k := fun h => hi (Finset.mem_range.mpr h)
    rw [tileTerm,if_neg (fun h => hge h.2),zero_mul]
  rw [←Finset.sum_subset (Finset.range_subset_range.mpr hk) hzero]
  refine Finset.sum_congr rfl (fun i hi => ?_)
  have hlt := Finset.mem_range.mp hi
  rw [tileTerm,if_pos ⟨hrow,hlt⟩,if_pos ⟨hlt,hcol⟩]

end Sums

section Tiles

variable {K : Type} {order : List ThreadIdx} {s : BlockState ThreadIdx K Cell K}

/-- What stages that store to tiles only leave as it was. -/
structure Kept (s s' : BlockState ThreadIdx K Cell K) : Prop where
  /-- The adapter's intermediate. -/
  adapter : ∀ place, s'.memory (.adapter place)=s.memory (.adapter place)
  /-- The output. -/
  output : ∀ place, s'.memory (.output place)=s.memory (.output place)
  /-- The places of the output that were stored to. -/
  stored : s'.stored.filterMap Cell.output?=s.stored.filterMap Cell.output?

/-- One stage after another. -/
theorem Kept.trans {s s' s'' : BlockState ThreadIdx K Cell K} (h : Kept s s') (h' : Kept s' s'') :
    Kept s s'' :=
  ⟨fun place => (h'.adapter place).trans (h.adapter place),
    fun place => (h'.output place).trans (h.output place),h'.stored.trans h.stored⟩

/-- A stage in which no thread stores to the output leaves it alone. -/
theorem runStage_inside {stage : ThreadIdx → Stage K Cell K} (hn : order.Nodup)
    (h : Apart stage order s)
    (hstores : ∀ thread, ∀ store∈storesOf stage s thread, store.1.output?=none) :
    (∀ place, (runStage stage order s).memory (.output place)=s.memory (.output place)) ∧
      (runStage stage order s).stored.filterMap Cell.output?=
        s.stored.filterMap Cell.output? := by
  have hnone : ∀ address∈(order.flatMap (storesOf stage s)).map Prod.fst,
      address.output?=none := by
    intro address hm
    obtain ⟨store,hs,rfl⟩ := List.mem_map.mp hm
    obtain ⟨thread,_,hs⟩ := List.mem_flatMap.mp hs
    exact hstores thread store hs
  constructor
  · intro place
    rw [runStage_memory hn h]
    exact storeAll_other (fun hm => Option.some_ne_none _ (hnone _ hm))
  · rw [runStage_stored hn h,List.filterMap_append,List.filterMap_eq_nil_iff.mpr hnone,
      List.append_nil]

/-- A stage in which each thread stores to tiles only. -/
theorem Kept.of_stage {stage : ThreadIdx → Stage K Cell K} (hn : order.Nodup)
    (h : Apart stage order s)
    (houtput : ∀ thread, ∀ store∈storesOf stage s thread, store.1.output?=none)
    (hadapter : ∀ thread, ∀ store∈storesOf stage s thread, ∀ place, store.1≠.adapter place) :
    Kept s (runStage stage order s) := by
  refine ⟨fun place => ?_,(runStage_inside hn h houtput).1,(runStage_inside hn h houtput).2⟩
  rw [runStage_memory hn h]
  refine storeAll_other (fun hm => ?_)
  obtain ⟨store,hs,he⟩ := List.mem_map.mp hm
  obtain ⟨thread,_,hs⟩ := List.mem_flatMap.mp hs
  exact hadapter thread store hs place he

variable [CommRing K] {left right : ℕ → K} {m n k t : ℕ} {block : BlockIdx}

/-- Loading reads nothing that the block stores to. -/
theorem loadTiles_apart : Apart (loadTiles left right m n k block t) order s :=
  fun _ _ _ _ => rfl

/-- Nothing is stored while the tiles are read. -/
theorem multiplyTiles_apart : Apart multiplyTiles order s := by
  intro thread _ memory h
  have he : memory=s.memory := funext (fun address => h address (fun _ _ _ => List.not_mem_nil))
  rw [he]

/-- The stores of the loads. -/
theorem mem_loads {thread : ThreadIdx} {store : Cell×K}
    (hm : store∈storesOf (loadTiles left right m n k block t) s thread) :
    store=(.left thread.y thread.x,if rowOf block thread < m ∧ t*kTile+thread.x<k then
        left (rowOf block thread*k+(t*kTile+thread.x)) else 0) ∨
      store=(.right thread.y thread.x.castSucc,
        if t*kTile+thread.y<k ∧ colOf block thread<n then
          right ((t*kTile+thread.y)*n+colOf block thread) else 0) := by
  rcases List.mem_cons.mp hm with he|hm
  · exact Or.inl he
  · exact Or.inr (List.mem_singleton.mp hm)

variable (hn : order.Nodup) (hall : ∀ thread, thread∈order)

include hn hall

/-- The left tile after the loads. -/
theorem loadTiles_left (thread : ThreadIdx) (i : Fin kTile) :
    (runStage (loadTiles left right m n k block t) order s).memory (.left thread.y i)=
      if rowOf block thread < m ∧ t*kTile+i<k then left (rowOf block thread*k+(t*kTile+i))
      else 0 := by
  rw [runStage_memory hn loadTiles_apart]
  refine storeAll_value (List.mem_map.mpr ⟨_,List.mem_flatMap.mpr
    ⟨⟨thread.y,i⟩,hall _,List.mem_cons_self⟩,rfl⟩) ?_
  intro store hm he
  obtain ⟨⟨y,x⟩,_,hm⟩ := List.mem_flatMap.mp hm
  rcases mem_loads hm with rfl|rfl
  · obtain ⟨rfl,rfl⟩ := Cell.left.inj he
    rfl
  · exact Cell.noConfusion he

/-- The right tile after the loads. -/
theorem loadTiles_right (thread : ThreadIdx) (i : Fin kTile) :
    (runStage (loadTiles left right m n k block t) order s).memory (.right i thread.x.castSucc)=
      if t*kTile+i<k ∧ colOf block thread<n then right ((t*kTile+i)*n+colOf block thread)
      else 0 := by
  rw [runStage_memory hn loadTiles_apart]
  refine storeAll_value (List.mem_map.mpr ⟨_,List.mem_flatMap.mpr
    ⟨⟨i,thread.x⟩,hall _,List.mem_cons_of_mem _ List.mem_cons_self⟩,rfl⟩) ?_
  intro store hm he
  obtain ⟨⟨y,x⟩,_,hm⟩ := List.mem_flatMap.mp hm
  rcases mem_loads hm with rfl|rfl
  · exact Cell.noConfusion he
  · obtain ⟨rfl,hx⟩ := Cell.right.inj he
    obtain rfl := Fin.castSucc_injective kTile hx
    rfl

omit hall in
/-- The loads store to tiles only. -/
theorem loadTiles_kept : Kept s (runStage (loadTiles left right m n k block t) order s) := by
  refine Kept.of_stage hn loadTiles_apart (fun thread store hm => ?_)
    (fun thread store hm place he => ?_)
  · rcases mem_loads hm with rfl|rfl <;> rfl
  · rcases mem_loads hm with rfl|rfl <;> exact Cell.noConfusion he

omit hall in
/-- The products store nothing. -/
theorem multiplyTiles_kept : Kept s (runStage multiplyTiles order s) :=
  Kept.of_stage hn multiplyTiles_apart (fun _ _ hm => absurd hm List.not_mem_nil)
    (fun _ _ hm => absurd hm List.not_mem_nil)

/-- What a turn of the tile loop adds to a thread's accumulator. -/
theorem tileTurn_registers {later : List ThreadIdx} (hn' : later.Nodup)
    (hall' : ∀ thread, thread∈later) (thread : ThreadIdx) :
    (runStage multiplyTiles later
      (runStage (loadTiles left right m n k block t) order s)).registers thread=
        s.registers thread+∑ i ∈ Finset.range kTile,
          tileTerm left right m n k (rowOf block thread) (colOf block thread) (t*kTile+i) := by
  rw [runStage_registers hn' multiplyTiles_apart (hall' thread)]
  unfold multiplyTiles
  rw [foldl_terms,runStage_registers hn loadTiles_apart (hall thread),←Fin.sum_univ_def,
    ←Fin.sum_univ_eq_sum_range]
  refine congrArg (s.registers thread+·) (Finset.sum_congr rfl (fun i _ => ?_))
  rw [loadTiles_left hn hall,loadTiles_right hn hall,tileTerm]

end Tiles

section TileLoop

variable {K : Type} [CommRing K] {left right : ℕ → K} {m n k : ℕ} {block : BlockIdx}
variable {threads : ℕ → List ThreadIdx} (hn : ∀ round, (threads round).Nodup)
variable (hall : ∀ round thread, thread∈threads round)

/-- The stages of so many turns, which all threads share. -/
def tileStages (left right : ℕ → K) (m n k : ℕ) (block : BlockIdx) (tiles : ℕ) :
    List (ThreadIdx → Stage K Cell K) :=
  (List.range tiles).flatMap (fun t => [loadTiles left right m n k block t,multiplyTiles])

/-- The tile loop is cut alike in all threads. -/
theorem tileLoop_eq (thread : ThreadIdx) : tileLoop left right m n k block thread=
    (tileStages left right m n k block (ceilDiv k kTile)).map (fun stage => stage thread) := by
  rw [tileLoop,tileStages,List.map_flatMap]
  rfl

include hn hall

/-- The tile loop leaves in each accumulator the terms that its tiles cover. -/
theorem tileStages_run (round tiles : ℕ) (s : BlockState ThreadIdx K Cell K) :
    Kept s (runStages threads round (tileStages left right m n k block tiles) s) ∧
      ∀ thread, (runStages threads round (tileStages left right m n k block tiles) s).registers
        thread=s.registers thread+∑ i ∈ Finset.range (tiles*kTile),
          tileTerm left right m n k (rowOf block thread) (colOf block thread) i := by
  induction tiles with
  | zero =>
    refine ⟨⟨fun _ => rfl,fun _ => rfl,rfl⟩,fun thread => ?_⟩
    rw [Nat.zero_mul,Finset.range_zero,Finset.sum_empty,add_zero]
    rfl
  | succ tiles ih =>
    have hstages : tileStages left right m n k block (tiles+1)=
        tileStages left right m n k block tiles++
          [loadTiles left right m n k block tiles,multiplyTiles] := by
      rw [tileStages,List.range_succ,List.flatMap_append,List.flatMap_singleton]
      rfl
    rw [hstages,runStages_append]
    refine ⟨ih.1.trans ((loadTiles_kept (hn _)).trans (multiplyTiles_kept (hn _))),?_⟩
    intro thread
    refine (tileTurn_registers (hn _) (hall _) (hn _) (hall _) thread).trans ?_
    rw [ih.2 thread,Nat.succ_mul,Finset.sum_range_add,add_assoc]

/-- Behind the loop a thread within the output has its element of the product. -/
theorem tileLoop_run (round : ℕ) (s : BlockState ThreadIdx K Cell K) {thread : ThreadIdx}
    (hrow : rowOf block thread < m) (hcol : colOf block thread<n) :
    (runStages threads round (tileStages left right m n k block (ceilDiv k kTile)) s).registers
      thread=s.registers thread+
        product left right n k (rowOf block thread*n+colOf block thread) := by
  have hcover : k≤ceilDiv k kTile*kTile := by
    unfold ceilDiv kTile
    omega
  rw [(tileStages_run hn hall round _ s).2 thread,sum_tileTerm hrow hcol hcover,product,
    place_div hcol,place_mod hcol]

end TileLoop

end CudaForge.TiledProducts
