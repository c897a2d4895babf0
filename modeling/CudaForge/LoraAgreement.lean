import CudaForge.LoraBlocks

/-!
# The fused and the unfused path agree

What `launch_lora_linear` leaves on either path is the output of the reference,
whatever order the device runs blocks and threads in. A thread of a block passes
every barrier, and each launch stores to every element of its output once.
-/

namespace CudaForge.LoraAgreement

open BarrierPrograms BlockReductions LoraBlocks LoraKernels RowMajor TiledProducts WrappedIntegers

section Launches

variable {K : Type} [CommRing K]

/-- A buffer whose first places have been filled. -/
def filled (size : ℕ) (value buffer : ℕ → K) : ℕ → K :=
  fun place => if place<size then value place else buffer place

omit [CommRing K] in
/-- Rewriting each place once. -/
theorem rewriteAt_perm {stored : List ℕ} {size : ℕ} (h : stored.Perm (List.range size))
    (rewrite : ℕ → K → K) (buffer : ℕ → K) :
    rewriteAt stored rewrite buffer=
      filled size (fun place => rewrite place (buffer place)) buffer := by
  funext place
  have hm : place∈stored ↔ place<size := h.mem_iff.trans List.mem_range
  rw [rewriteAt,filled]
  simp only [hm]

omit [CommRing K] in
/-- The places that have been filled. -/
theorem filled_inside {size place : ℕ} {value buffer : ℕ → K} (hp : place<size) :
    filled size value buffer place=value place :=
  if_pos hp

omit [CommRing K] in
/-- The places behind them. -/
theorem filled_outside {size place : ℕ} {value buffer : ℕ → K} (hp : ¬place<size) :
    filled size value buffer place=buffer place :=
  if_neg hp

/-- An element of the layer's output. -/
def loraElement (x w a b : ℕ → K) (inFeatures outFeatures rank : ℕ) (scale : K) (place : ℕ) : K :=
  product x w outFeatures inFeatures place+
    scale*product (product x a rank inFeatures) b outFeatures rank place

/-- The rows of a filled buffer enter a product as they were filled in. -/
theorem product_filled {rows n k place : ℕ} {value buffer right : ℕ → K} (hp : place<rows*n) :
    product (filled (rows*k) value buffer) right n k place=product value right n k place := by
  have hrow : place/n<rows := Nat.div_lt_of_lt_mul (Nat.mul_comm rows n ▸ hp)
  refine Finset.sum_congr rfl (fun i hi => ?_)
  rw [filled_inside (place_lt hrow (Finset.mem_range.mp hi))]

/-- Positive sizes that a device takes: the rows of a batch fit the second dimension of
a grid, and every other size can be rounded up to tiles. -/
structure Launchable (batch inFeatures outFeatures rank : ℤ) : Prop where
  batch_pos : 0<batch
  inFeatures_pos : 0 < inFeatures
  outFeatures_pos : 0<outFeatures
  rank_pos : 0<rank
  batch_le : batch ≤ maxGridY*kTile
  inFeatures_roundsUp : RoundsUp inFeatures
  outFeatures_roundsUp : RoundsUp outFeatures
  rank_roundsUp : RoundsUp rank

/-- A size that can be rounded up takes no more tiles than an `int` counts. -/
theorem tiles_le {size : ℤ} (h : RoundsUp size) : ceilDiv size.toNat kTile ≤ intMax := by
  have hlimit : intMax=2147483647 := rfl
  have htile : kTile=16 := rfl
  rw [RoundsUp,htile] at h
  rw [ceilDiv,htile]
  omega

/-- The rows of a batch take no more tiles than a grid has in its second dimension. -/
theorem rowTiles_le {batch : ℤ} (h : batch ≤ maxGridY*kTile) :
    RoundsUp batch ∧ ceilDiv batch.toNat kTile ≤ maxGridY := by
  have hlimit : intMax=2147483647 := rfl
  have htile : kTile=16 := rfl
  have hgrid : maxGridY=65535 := rfl
  rw [htile,hgrid] at h
  rw [RoundsUp,ceilDiv,htile]
  omega

/-- `launch_matmul` fills its output, each place once. -/
theorem launchMatmul_eq {limit : ℕ} (hlimit : tileBytes≤limit) {m n k : ℤ} (hm : 0 < m)
    (hn : 0<n) (hk : 0<k) (hm' : m ≤ maxGridY*kTile) (hn' : RoundsUp n) (hk' : RoundsUp k)
    (a b c : ℕ → K) (run : Execution (ceilDiv m.toNat kTile) (ceilDiv n.toNat kTile) K) :
    ∃ stored : List ℕ, stored.Perm (List.range (m.toNat*n.toNat)) ∧
      launchMatmul limit a b c m n k run=
        .ok (filled (m.toNat*n.toNat) (product a b n.toNat k.toNat) c,[stored]) := by
  obtain ⟨hround,hrows⟩ := rowTiles_le hm'
  obtain ⟨stored,hp,he⟩ := launchKernel_eq _ run (fun block output =>
    matmulTiled_block (run.threads_nodup block) (run.mem_threads block) a b m.toNat n.toNat
      k.toNat) c hlimit (tiles_le hn') hrows
  refine ⟨stored,hp,?_⟩
  rw [launchMatmul,if_neg (by omega),if_pos ⟨hround,hn',hk'⟩,he,rewriteAt_perm hp]

variable (device : Device K) (x w a b y : ℕ → K) {batch inFeatures outFeatures rank : ℤ}
variable (hsizes : Launchable batch inFeatures outFeatures rank)
variable (scale : K) {maxSharedMemoryPerBlock : ℕ} {variant : LoRAKernel}

include hsizes

/-- The fused path. -/
theorem fused_outcome (workspace : Option (ℕ → K))
    (hf : fusable maxSharedMemoryPerBlock variant rank.toNat=true)
    (hbudget : tileBytes+fusedShared rank.toNat ≤ maxSharedMemoryPerBlock) :
    ∃ stored : List ℕ, stored.Perm (List.range (batch.toNat*outFeatures.toNat)) ∧
      launchLoraLinear maxSharedMemoryPerBlock device x w a b y workspace batch inFeatures
        outFeatures rank scale variant=
          .ok ⟨filled (batch.toNat*outFeatures.toNat)
            (loraElement x w a b inFeatures.toNat outFeatures.toNat rank.toNat scale) y,workspace,
            [stored],[]⟩ := by
  let run := device 0 (ceilDiv batch.toNat kTile) (ceilDiv outFeatures.toNat kTile)
  obtain ⟨stored,hp,he⟩ := launchKernel_eq _ run (fun block output =>
    loraFused_block block (run.threads_nodup block) (run.mem_threads block) x w a b batch.toNat
      inFeatures.toNat outFeatures.toNat rank.toNat scale) y hbudget
    (tiles_le hsizes.outFeatures_roundsUp) (rowTiles_le hsizes.batch_le).2
  refine ⟨stored,hp,?_⟩
  have hneg : ¬(batch≤0 ∨ inFeatures≤0 ∨ outFeatures≤0 ∨ rank≤0) := by
    have h1 := hsizes.batch_pos
    have h2 := hsizes.inFeatures_pos
    have h3 := hsizes.outFeatures_pos
    have h4 := hsizes.rank_pos
    omega
  unfold launchLoraLinear
  rw [if_neg hneg,if_pos hf,if_pos ⟨(rowTiles_le hsizes.batch_le).1,hsizes.inFeatures_roundsUp,
    hsizes.outFeatures_roundsUp,hsizes.rank_roundsUp⟩]
  change (launchKernel _ _ _ run y >>= _)=_
  rw [he,rewriteAt_perm hp]
  rfl

/-- The unfused path. -/
theorem unfused_outcome (workspace : ℕ → K)
    (hf : fusable maxSharedMemoryPerBlock variant rank.toNat=false)
    (hbudget : tileBytes ≤ maxSharedMemoryPerBlock) :
    ∃ frozen adapter summed : List ℕ,
      frozen.Perm (List.range (batch.toNat*outFeatures.toNat)) ∧
      adapter.Perm (List.range (batch.toNat*rank.toNat)) ∧
      summed.Perm (List.range (batch.toNat*outFeatures.toNat)) ∧
      launchLoraLinear maxSharedMemoryPerBlock device x w a b y (some workspace) batch inFeatures
        outFeatures rank scale variant=
          .ok ⟨filled (batch.toNat*outFeatures.toNat)
            (loraElement x w a b inFeatures.toNat outFeatures.toNat rank.toNat scale) y,
            some (filled (batch.toNat*rank.toNat) (product x a rank.toNat inFeatures.toNat)
              workspace),[frozen,summed],[adapter]⟩ := by
  obtain ⟨hbatch,hin,hout,hrank,hbatch',hin',hout',hrank'⟩ := hsizes
  obtain ⟨frozen,hfrozen,hfirst⟩ := launchMatmul_eq hbudget hbatch hout hin hbatch' hout' hin' x w
    y (device 0 _ _)
  obtain ⟨adapter,hadapter,hsecond⟩ := launchMatmul_eq hbudget hbatch hrank hin hbatch' hrank'
    hin' x a workspace (device 1 _ _)
  let run := device 2 (ceilDiv batch.toNat kTile) (ceilDiv outFeatures.toNat kTile)
  obtain ⟨summed,hsummed,hthird⟩ := launchKernel_eq _ run (fun block output =>
    accumulateLora_block (run.threads_nodup block) (run.mem_threads block)
      (filled (batch.toNat*rank.toNat) (product x a rank.toNat inFeatures.toNat) workspace) b
      batch.toNat outFeatures.toNat rank.toNat scale)
    (filled (batch.toNat*outFeatures.toNat) (product x w outFeatures.toNat inFeatures.toNat) y)
    (Nat.zero_le _) (tiles_le hout') (rowTiles_le hbatch').2
  refine ⟨frozen,adapter,summed,hfrozen,hadapter,hsummed,?_⟩
  have hy : rewriteAt summed (fun place value => value+scale*product
      (filled (batch.toNat*rank.toNat) (product x a rank.toNat inFeatures.toNat) workspace) b
      outFeatures.toNat rank.toNat place)
      (filled (batch.toNat*outFeatures.toNat) (product x w outFeatures.toNat inFeatures.toNat) y)=
        filled (batch.toNat*outFeatures.toNat)
          (loraElement x w a b inFeatures.toNat outFeatures.toNat rank.toNat scale) y := by
    rw [rewriteAt_perm hsummed]
    funext place
    by_cases hp : place<batch.toNat*outFeatures.toNat
    · rw [filled_inside hp,filled_inside hp,filled_inside hp,product_filled hp,loraElement]
    · rw [filled_outside hp,filled_outside hp,filled_outside hp]
  rw [hy] at hthird
  have hneg : ¬(batch≤0 ∨ inFeatures≤0 ∨ outFeatures≤0 ∨ rank≤0) := by omega
  have hfn : ¬fusable maxSharedMemoryPerBlock variant rank.toNat=true := by
    rw [hf]
    exact Bool.false_ne_true
  unfold launchLoraLinear
  rw [if_neg hneg,if_neg hfn]
  change (launchMatmul _ x w y batch outFeatures inFeatures (device 0 _ _) >>= _)=_
  rw [hfirst]
  change (launchMatmul _ x a workspace batch rank inFeatures (device 1 _ _) >>= _)=_
  rw [hsecond]
  change (launchKernel _ _ _ run _ >>= _)=_
  rw [hthird]
  rfl

end Launches

section Agreement

variable {K : Type} [CommRing K]

/-- A product of buffers is the product of their matrices. -/
theorem matrixOf_product (m n k : ℕ) (left right : ℕ → K) :
    matrixOf m n (product left right n k)=matrixOf m k left*matrixOf k n right := by
  ext row col
  rw [Matrix.mul_apply]
  change product left right n k (row*n+col)=_
  rw [product,place_div col.isLt,place_mod col.isLt,Finset.sum_range]
  rfl

/-- The layer's elements are those of the reference. -/
theorem matrixOf_loraElement (x w a b : ℕ → K) (batch inFeatures outFeatures rank : ℕ)
    (scale : K) (y : ℕ → K) : matrixOf batch outFeatures
      (filled (batch*outFeatures) (loraElement x w a b inFeatures outFeatures rank scale) y)=
        loraLinearReference (matrixOf batch inFeatures x) (matrixOf inFeatures outFeatures w)
          (matrixOf inFeatures rank a) (matrixOf rank outFeatures b) scale := by
  rw [loraLinearReference,←matrixOf_product,←matrixOf_product,←matrixOf_product]
  ext row col
  exact filled_inside (place_lt row.isLt col.isLt)

/-- Each of so many launches stored to every place of a buffer once, and to no other. -/
def StoredOnce (launches : List (List ℕ)) (count size : ℕ) : Prop :=
  launches.length=count ∧ ∀ stored∈launches, stored.Perm (List.range size)

/-- What the two paths are to do: both return, with the same output, the one of the
reference; each of their launches stores to every element of its output once and to
nothing else. -/
def Agrees (batch inFeatures outFeatures rank : ℤ) (x w a b y : ℕ → K) (scale : K)
    (limit limit' : ℕ) (variant variant' : LoRAKernel) (device device' : Device K)
    (ignored : Option (ℕ → K)) (workspace : ℕ → K) : Prop :=
  ∃ fused unfused : Outcome K,
    launchLoraLinear limit device x w a b y ignored batch inFeatures outFeatures rank scale
      variant=.ok fused ∧
    launchLoraLinear limit' device' x w a b y (some workspace) batch inFeatures outFeatures rank
      scale variant'=.ok unfused ∧
    fused.y=unfused.y ∧
    matrixOf batch.toNat outFeatures.toNat fused.y=
      loraLinearReference (matrixOf batch.toNat inFeatures.toNat x)
        (matrixOf inFeatures.toNat outFeatures.toNat w)
        (matrixOf inFeatures.toNat rank.toNat a) (matrixOf rank.toNat outFeatures.toNat b)
        scale ∧
    (∀ place, batch.toNat*outFeatures.toNat≤place → fused.y place=y place) ∧
    StoredOnce fused.yStored 1 (batch.toNat*outFeatures.toNat) ∧
    StoredOnce unfused.yStored 2 (batch.toNat*outFeatures.toNat) ∧
    StoredOnce fused.workspaceStored 0 (batch.toNat*rank.toNat) ∧
    StoredOnce unfused.workspaceStored 1 (batch.toNat*rank.toNat)

/-- For sizes that a device takes, where the tiles fit its shared memory, on the fused
path beside the intermediate: whichever way the blocks and their threads run, both paths
pass all barriers and agree. -/
theorem launchLoraLinear_agrees {batch inFeatures outFeatures rank : ℤ}
    (hsizes : Launchable batch inFeatures outFeatures rank) (x w a b y : ℕ → K) (scale : K)
    {limit limit' : ℕ} {variant variant' : LoRAKernel}
    (hfused : fusable limit variant rank.toNat=true)
    (hbudget : tileBytes+fusedShared rank.toNat≤limit)
    (hunfused : fusable limit' variant' rank.toNat=false) (hbudget' : tileBytes≤limit')
    (device device' : Device K) (ignored : Option (ℕ → K)) (workspace : ℕ → K) :
    Agrees batch inFeatures outFeatures rank x w a b y scale limit limit' variant variant' device
      device' ignored workspace := by
  obtain ⟨stored,hs,hf⟩ := fused_outcome device x w a b y hsizes scale ignored hfused hbudget
  obtain ⟨frozen,adapter,summed,h1,h2,h3,hu⟩ := unfused_outcome device' x w a b y hsizes scale
    workspace hunfused hbudget'
  refine ⟨_,_,hf,hu,rfl,matrixOf_loraElement x w a b _ _ _ _ scale y,?_,⟨rfl,?_⟩,⟨rfl,?_⟩,
    ⟨rfl,?_⟩,⟨rfl,?_⟩⟩
  · intro place hp
    exact filled_outside (Nat.not_lt.mpr hp)
  · intro launch hm
    rw [List.mem_singleton.mp hm]
    exact hs
  · intro launch hm
    rcases List.mem_cons.mp hm with rfl|hm
    · exact h1
    · rw [List.mem_singleton.mp hm]
      exact h3
  · intro launch hm
    exact absurd hm List.not_mem_nil
  · intro launch hm
    rw [List.mem_singleton.mp hm]
    exact h2

/-- A device that runs the blocks row by row, and so the threads of each. -/
def rowByRow : Device K := fun _ gridY gridX =>
  { blocks := (List.range gridY).flatMap (fun y => (List.range gridX).map (BlockIdx.mk y))
    blocks_nodup := nodup_flatMap_of_owner BlockIdx.y List.nodup_range
      (fun y _ => List.nodup_range.map (fun _ _ he => congrArg BlockIdx.x he))
      (fun y _ block hm => by
        obtain ⟨x,_,rfl⟩ := List.mem_map.mp hm
        rfl)
    mem_blocks := fun block => by
      rw [List.mem_flatMap]
      constructor
      · rintro ⟨y,hy,hm⟩
        obtain ⟨x,hx,rfl⟩ := List.mem_map.mp hm
        exact ⟨List.mem_range.mp hy,List.mem_range.mp hx⟩
      · intro h
        exact ⟨block.y,List.mem_range.mpr h.1,
          List.mem_map.mpr ⟨block.x,List.mem_range.mpr h.2,rfl⟩⟩
    threads := fun _ _ =>
      (List.finRange kTile).flatMap (fun y => (List.finRange kTile).map (ThreadIdx.mk y))
    threads_nodup := fun _ _ => nodup_flatMap_of_owner ThreadIdx.y (List.nodup_finRange kTile)
      (fun y _ => (List.nodup_finRange kTile).map (fun _ _ he => congrArg ThreadIdx.x he))
      (fun y _ thread hm => by
        obtain ⟨x,_,rfl⟩ := List.mem_map.mp hm
        rfl)
    mem_threads := fun _ _ thread => List.mem_flatMap.mpr ⟨thread.y,List.mem_finRange _,
      List.mem_map.mpr ⟨thread.x,List.mem_finRange _,rfl⟩⟩
    shared := fun _ _ => 0 }

/-- Seventeen rows, where no dimension fills its last tile. -/
theorem launchLoraLinear_agrees_ragged :
    Agrees (K := ℤ) 17 5 33 2 Nat.cast (fun place => place+1) (fun place => place-7)
      (fun place => 3*place) (fun _ => 5) 4 49152 49152 .fused .unfused rowByRow rowByRow none
      (fun _ => 9) :=
  launchLoraLinear_agrees (K := ℤ)
    ⟨by decide,by decide,by decide,by decide,by decide,by decide,by decide,by decide⟩ Nat.cast
    (fun place => place+1) (fun place => place-7) (fun place => 3*place) (fun _ => 5) 4
    (by decide) (by decide) (by decide) (by decide) rowByRow rowByRow none (fun _ => 9)

/-- One row more than sixty-five thousand five hundred and thirty-five tiles of rows
hold: the grid is too long in its second dimension. -/
theorem launchLoraLinear_refused :
    ¬Agrees (K := ℤ) 1048561 5 33 2 Nat.cast (fun place => place+1) (fun place => place-7)
      (fun place => 3*place) (fun _ => 5) 4 49152 49152 .fused .unfused rowByRow rowByRow none
      (fun _ => 9) := by
  rintro ⟨fused,_,hf,_⟩
  have hrounds : RoundsUp 1048561 ∧ RoundsUp 5 ∧ RoundsUp 33 ∧ RoundsUp 2 := by decide
  have hfusable : fusable 49152 .fused (2 : ℤ).toNat=true := by decide
  rw [launchLoraLinear,if_neg (by omega),if_pos hfusable,if_pos hrounds,launchKernel,
    if_neg (by decide)] at hf
  cases hf

end Agreement

end CudaForge.LoraAgreement
