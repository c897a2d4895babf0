import CudaForge.TiledProducts

/-!
# The blocks of the LoRA kernels

What one block of each kernel leaves: its threads pass all barriers, and each
thread within the output stores its own place once. The blocks of a grid own all
places of the output, each place in one block.
-/

namespace CudaForge.LoraBlocks

open BarrierPrograms BlockReductions LoraKernels RowMajor ThreadPhases TiledProducts
open WrappedIntegers

section Blocks

variable {K : Type}

/-- The places of the output that the threads of a block own. -/
def ownPlaces (m n : ℕ) (block : BlockIdx) (threads : List ThreadIdx) : List ℕ :=
  threads.flatMap (fun thread =>
    if rowOf block thread < m ∧ colOf block thread<n then
      [rowOf block thread*n+colOf block thread] else [])

/-- What a thread stores last: its own place, when it has one. -/
def OwnStore (m n : ℕ) (block : BlockIdx) (stage : ThreadIdx → Stage K Cell K)
    (rewrite : ℕ → K → K) (s : BlockState ThreadIdx K Cell K) : Prop :=
  ∀ thread, storesOf stage s thread=
    if rowOf block thread < m ∧ colOf block thread<n then
      [(.output (rowOf block thread*n+colOf block thread),
        rewrite (rowOf block thread*n+colOf block thread)
          (s.memory (.output (rowOf block thread*n+colOf block thread))))] else []

variable {m n : ℕ} {block : BlockIdx} {stage : ThreadIdx → Stage K Cell K}
variable {rewrite : ℕ → K → K} {s : BlockState ThreadIdx K Cell K} {order : List ThreadIdx}

/-- A place of the output that a thread stores to is its own. -/
theorem OwnStore.mem (h : OwnStore m n block stage rewrite s) {thread : ThreadIdx}
    {store : Cell×K} (hm : store∈storesOf stage s thread) :
    (rowOf block thread < m ∧ colOf block thread<n) ∧
      store=(.output (rowOf block thread*n+colOf block thread),
        rewrite (rowOf block thread*n+colOf block thread)
          (s.memory (.output (rowOf block thread*n+colOf block thread)))) := by
  rw [h thread] at hm
  split at hm
  · next hin => exact ⟨hin,List.mem_singleton.mp hm⟩
  · exact absurd hm List.not_mem_nil

/-- The addresses stored to are the threads' own places. -/
theorem OwnStore.addresses (h : OwnStore m n block stage rewrite s) :
    (order.flatMap (storesOf stage s)).map Prod.fst=
      (ownPlaces m n block order).map Cell.output := by
  rw [ownPlaces,List.map_flatMap,List.map_flatMap]
  refine List.flatMap_congr (fun thread _ => ?_)
  rw [h thread]
  split <;> rfl

variable (hn : order.Nodup) (happart : Apart stage order s)
variable (h : OwnStore m n block stage rewrite s)

include hn happart h

/-- The output behind the last stage. -/
theorem OwnStore.output (place : ℕ) : (runStage stage order s).memory (.output place)=
    rewriteAt (ownPlaces m n block order) rewrite (fun place => s.memory (.output place))
      place := by
  rw [runStage_memory hn happart,rewriteAt]
  split
  · next hm =>
    refine storeAll_value ?_ ?_
    · rw [h.addresses]
      exact List.mem_map_of_mem hm
    · intro store hstore he
      obtain ⟨thread,_,hs⟩ := List.mem_flatMap.mp hstore
      rw [(h.mem hs).2] at he ⊢
      rw [Cell.output.inj he]
  · next hm =>
    refine storeAll_other ?_
    rw [h.addresses]
    intro hmap
    obtain ⟨other,ho,he⟩ := List.mem_map.mp hmap
    exact hm (Cell.output.inj he ▸ ho)

/-- The places stored to behind the last stage. -/
theorem OwnStore.stored : (runStage stage order s).stored.filterMap Cell.output?=
    s.stored.filterMap Cell.output?++ownPlaces m n block order := by
  rw [runStage_stored hn happart,List.filterMap_append,h.addresses,List.filterMap_map]
  exact congrArg (_++·) List.filterMap_some

end Blocks

section Grids

variable {K : Type} {m n : ℕ} {rewrite : ℕ → K → K}

/-- The block that owns a place. -/
def blockOf (n place : ℕ) : BlockIdx := ⟨place/n/kTile,place%n/kTile⟩

/-- The thread that owns a place. -/
def threadOf (n place : ℕ) : ThreadIdx := ⟨Fin.ofNat kTile (place/n),Fin.ofNat kTile (place%n)⟩

/-- A block owns its threads' places. -/
theorem blockOf_own {block : BlockIdx} {thread : ThreadIdx} (hcol : colOf block thread<n) :
    blockOf n (rowOf block thread*n+colOf block thread)=block := by
  rw [blockOf,place_div hcol,place_mod hcol,rowOf,colOf,place_div thread.y.isLt,
    place_div thread.x.isLt]

/-- A thread owns its place. -/
theorem threadOf_own {block : BlockIdx} {thread : ThreadIdx} (hcol : colOf block thread<n) :
    threadOf n (rowOf block thread*n+colOf block thread)=thread := by
  rw [threadOf,place_div hcol,place_mod hcol]
  have hy : Fin.ofNat kTile (rowOf block thread)=thread.y :=
    Fin.ext (place_mod thread.y.isLt)
  have hx : Fin.ofNat kTile (colOf block thread)=thread.x :=
    Fin.ext (place_mod thread.x.isLt)
  rw [hy,hx]

/-- Threads are apart where each reads no place of the output but its own. -/
theorem OwnStore.apart {block : BlockIdx} {stage : ThreadIdx → Stage K Cell K}
    {s : BlockState ThreadIdx K Cell K} {order : List ThreadIdx}
    (h : OwnStore m n block stage rewrite s)
    (hreads : ∀ thread, ∀ memory : Cell → K,
      (∀ cell, cell.output?=none → memory cell=s.memory cell) →
      (colOf block thread<n →
        memory (.output (rowOf block thread*n+colOf block thread))=
          s.memory (.output (rowOf block thread*n+colOf block thread))) →
      stage thread (s.registers thread) memory=stage thread (s.registers thread) s.memory) :
    Apart stage order s := by
  intro thread _ memory hmemory
  refine hreads thread memory (fun cell hcell => ?_) (fun hcol => ?_)
  · refine hmemory cell (fun other _ _ hm => ?_)
    obtain ⟨store,hs,rfl⟩ := List.mem_map.mp hm
    rw [(h.mem hs).2] at hcell
    exact Option.some_ne_none _ hcell
  · refine hmemory _ (fun other _ hne hm => ?_)
    obtain ⟨store,hs,he⟩ := List.mem_map.mp hm
    obtain ⟨hother,rfl⟩ := h.mem hs
    have hplace := congrArg (threadOf n) (Cell.output.inj he)
    rw [threadOf_own hother.2,threadOf_own hcol] at hplace
    exact hne hplace

/-- What is among the places of a block's threads. -/
theorem mem_ownPlaces {block : BlockIdx} {threads : List ThreadIdx} {place : ℕ} :
    place∈ownPlaces m n block threads ↔ ∃ thread∈threads,
      (rowOf block thread < m ∧ colOf block thread<n) ∧
        place=rowOf block thread*n+colOf block thread := by
  rw [ownPlaces,List.mem_flatMap]
  refine exists_congr (fun thread => and_congr_right (fun _ => ?_))
  split
  · next hin => exact List.mem_singleton.trans (and_iff_right hin).symm
  · next hout => exact iff_of_false List.not_mem_nil (fun h => hout h.1)

/-- The threads of a block own different places. -/
theorem ownPlaces_nodup {block : BlockIdx} {threads : List ThreadIdx} (hn : threads.Nodup) :
    (ownPlaces m n block threads).Nodup := by
  refine nodup_flatMap_of_owner (threadOf n) hn (fun thread _ => ?_) (fun thread _ place hp => ?_)
  · split
    · exact List.nodup_singleton _
    · exact List.nodup_nil
  · split at hp
    · next hin => exact List.mem_singleton.mp hp ▸ threadOf_own hin.2
    · exact absurd hp List.not_mem_nil

/-- Each place of the output has one block and one thread in the grid. -/
theorem places_perm {blocks : List BlockIdx} (hb : blocks.Nodup)
    (hmem : ∀ block, block∈blocks ↔ block.y<ceilDiv m kTile ∧ block.x<ceilDiv n kTile)
    {threads : BlockIdx → List ThreadIdx} (hn : ∀ block, (threads block).Nodup)
    (hall : ∀ block thread, thread∈threads block) :
    (blocks.flatMap (fun block => ownPlaces m n block (threads block))).Perm
      (List.range (m*n)) := by
  have hnodup : (blocks.flatMap (fun block => ownPlaces m n block (threads block))).Nodup := by
    refine nodup_flatMap_of_owner (blockOf n) hb (fun block _ => ownPlaces_nodup (hn block)) ?_
    intro block _ place hp
    obtain ⟨thread,_,hin,rfl⟩ := mem_ownPlaces.mp hp
    exact blockOf_own hin.2
  refine (List.perm_ext_iff_of_nodup hnodup List.nodup_range).mpr (fun place => ?_)
  rw [List.mem_flatMap,List.mem_range]
  constructor
  · rintro ⟨block,_,hp⟩
    obtain ⟨thread,_,hin,rfl⟩ := mem_ownPlaces.mp hp
    exact place_lt hin.1 hin.2
  · intro hlt
    have hn0 : 0<n := Nat.pos_of_mul_pos_left (Nat.zero_lt_of_lt hlt)
    have hrow : rowOf (blockOf n place) (threadOf n place)=place/n := Nat.div_add_mod' _ _
    have hcol : colOf (blockOf n place) (threadOf n place)=place%n := Nat.div_add_mod' _ _
    have hm : place/n < m := Nat.div_lt_of_lt_mul (Nat.mul_comm m n ▸ hlt)
    have hl : place%n<n := Nat.mod_lt place hn0
    refine ⟨blockOf n place,(hmem _).mpr ?_,mem_ownPlaces.mpr
      ⟨threadOf n place,hall _ _,?_,?_⟩⟩
    · unfold blockOf ceilDiv kTile
      dsimp only
      omega
    · rw [hrow,hcol]
      exact ⟨hm,hl⟩
    · rw [hrow,hcol,Nat.div_add_mod']

variable [CommRing K]

/-- A block whose threads run stages cut alike, the last of which stores what each
thread owns. -/
theorem runBlock_cut {programs : ThreadIdx → List (Stage K Cell K)}
    {stages : List (ThreadIdx → Stage K Cell K)} {last : ThreadIdx → Stage K Cell K}
    {block : BlockIdx} {threads : ℕ → List ThreadIdx} {shared : Cell → K} {output : ℕ → K}
    (hn : ∀ round, (threads round).Nodup) (hall : ∀ round thread, thread∈threads round)
    (hprograms : ∀ thread, programs thread=(stages++[last]).map (fun stage => stage thread))
    {s : BlockState ThreadIdx K Cell K}
    (hs : runStages threads 0 stages ⟨fun _ => 0,startMemory shared output,[]⟩=s)
    (hkept : ∀ place, s.memory (.output place)=output place)
    (hstored : s.stored.filterMap Cell.output?=[])
    (happart : Apart last (threads stages.length) s) (h : OwnStore m n block last rewrite s) :
    runBlock programs threads shared output=
      some (rewriteAt (ownPlaces m n block (threads stages.length)) rewrite output,
        ownPlaces m n block (threads stages.length)) := by
  have hne : stages++[last]≠[] := List.append_ne_nil_of_right_ne_nil _ (List.cons_ne_nil _ _)
  have horder : ∀ round, threads round≠[] := fun round =>
    List.ne_nil_of_mem (hall round ⟨0,0⟩)
  have heq : programs=fun thread => (stages++[last]).map (fun stage => stage thread) :=
    funext hprograms
  have hlength : (programs ⟨0,0⟩).length=(stages++[last]).length := by
    rw [hprograms,List.length_map]
  have hrun : runStages threads 0 (stages++[last]) ⟨fun _ => 0,startMemory shared output,[]⟩=
      runStage last (threads stages.length) s := by
    rw [runStages_append,hs,Nat.zero_add]
    rfl
  have houtput : (fun place => (runStage last (threads stages.length) s).memory (.output place))=
      rewriteAt (ownPlaces m n block (threads stages.length)) rewrite output := by
    funext place
    rw [h.output (hn _) happart,rewriteAt,rewriteAt,hkept]
  unfold runBlock
  dsimp only
  rw [hlength,heq,runPrograms_cut horder hne,hrun,Option.map_some,h.stored (hn _) happart,hstored,
    List.nil_append,houtput]

/-- A grid whose blocks rewrite the places that they own: each place of the output
is stored to once. -/
theorem launchKernel_eq {kernel : BlockIdx → ThreadIdx → List (Stage K Cell K)}
    (round : BlockIdx → ℕ) (run : Execution (ceilDiv m kTile) (ceilDiv n kTile) K)
    (hkernel : ∀ block output,
      runBlock (kernel block) (run.threads block) (run.shared block) output=
        some (rewriteAt (ownPlaces m n block (run.threads block (round block))) rewrite output,
          ownPlaces m n block (run.threads block (round block)))) (output : ℕ → K)
    {limit bytes : ℕ} (hbytes : bytes≤limit) (hx : ceilDiv n kTile ≤ intMax)
    (hy : ceilDiv m kTile ≤ maxGridY) :
    ∃ stored : List ℕ, stored.Perm (List.range (m*n)) ∧
      launchKernel limit bytes kernel run output=
        .ok (rewriteAt stored rewrite output,[stored]) := by
  have hperm := places_perm run.blocks_nodup run.mem_blocks
    (fun block => run.threads_nodup block (round block))
    (fun block => run.mem_threads block (round block))
  refine ⟨_,hperm,?_⟩
  have hgrid := foldlM_blocks (fun block _ => hkernel block) (hperm.nodup_iff.mpr List.nodup_range)
    output []
  unfold launchKernel runGrid
  rw [if_pos ⟨hbytes,hx,hy⟩,hgrid]
  rfl

end Grids

section Blockwise

variable {K : Type} [CommRing K] {block : BlockIdx} {threads : ℕ → List ThreadIdx}
variable (hn : ∀ round, (threads round).Nodup) (hall : ∀ round thread, thread∈threads round)
variable {shared : Cell → K} {output : ℕ → K}

include hn hall

/-- A block of `matmul_tiled`. -/
theorem matmulTiled_block (a b : ℕ → K) (m n k : ℕ) :
    runBlock (matmulTiled a b m n k block) threads shared output=
      some (rewriteAt (ownPlaces m n block
          (threads (tileStages a b m n k block (ceilDiv k kTile)).length))
        (fun place _ => product a b n k place) output,
        ownPlaces m n block (threads (tileStages a b m n k block (ceilDiv k kTile)).length)) := by
  have hprograms : ∀ thread, matmulTiled a b m n k block thread=
      (tileStages a b m n k block (ceilDiv k kTile)++[storeProduct m n block]).map
        (fun stage : ThreadIdx → Stage K Cell K => stage thread) := by
    intro thread
    rw [matmulTiled,tileLoop_eq,List.map_append]
    rfl
  have hkept : Kept ⟨fun _ => 0,startMemory shared output,[]⟩ (runStages threads 0
      (tileStages a b m n k block (ceilDiv k kTile))
      ⟨fun _ => 0,startMemory shared output,[]⟩) := (tileStages_run hn hall 0 _ _).1
  have happart : ∀ s : BlockState ThreadIdx K Cell K, Apart (storeProduct m n block)
      (threads (tileStages a b m n k block (ceilDiv k kTile)).length) s := fun _ _ _ _ _ => rfl
  refine runBlock_cut hn hall hprograms rfl hkept.output hkept.stored (happart _) ?_
  intro thread
  unfold storesOf storeProduct
  dsimp only
  split
  · next hin => rw [tileLoop_run hn hall 0 _ hin.1 hin.2,zero_add]
  · rfl

/-- A block of `accumulate_lora`. -/
theorem accumulateLora_block (p b : ℕ → K) (batch outFeatures rank : ℕ) (scale : K) :
    runBlock (accumulateLora p b batch outFeatures rank scale block) threads shared output=
      some (rewriteAt (ownPlaces batch outFeatures block (threads 0))
        (fun place value => value+scale*product p b outFeatures rank place) output,
        ownPlaces batch outFeatures block (threads 0)) := by
  have hprograms : ∀ thread, accumulateLora p b batch outFeatures rank scale block thread=
      ([]++[addAdapter p b batch outFeatures rank scale block]).map
        (fun stage : ThreadIdx → Stage K Cell K => stage thread) := fun _ => rfl
  have hown : OwnStore batch outFeatures block
      (addAdapter p b batch outFeatures rank scale block)
      (fun place value => value+scale*product p b outFeatures rank place)
      ⟨fun _ => 0,startMemory shared output,[]⟩ := by
    intro thread
    unfold storesOf addAdapter
    dsimp only
    by_cases hin : rowOf block thread<batch ∧ colOf block thread<outFeatures
    · rw [if_neg (by omega),if_pos hin,accumulate_eq,product,place_div hin.2,
        place_mod hin.2]
    · rw [if_pos (by omega),if_neg hin]
  refine runBlock_cut hn hall hprograms rfl (fun _ => rfl) rfl (hown.apart ?_) hown
  intro thread memory _ hsame
  unfold addAdapter
  dsimp only
  split
  · rfl
  · next hin => rw [hsame (by omega)]

section Fused

variable (x w a b : ℕ → K) (batch inFeatures outFeatures rank : ℕ) (scale : K)
variable (s : BlockState ThreadIdx K Cell K) (block)

omit hn hall in
/-- The first phase reads nothing that the block stores to. -/
theorem adapterPhase_apart {order : List ThreadIdx} :
    Apart (adapterPhase x a batch inFeatures rank block) order s :=
  fun _ _ _ _ => rfl

omit hall in
/-- The first phase leaves the output alone. -/
theorem adapterPhase_inside :
    (∀ place, (runStage (adapterPhase x a batch inFeatures rank block) (threads 0) s).memory
      (.output place)=s.memory (.output place)) ∧
      (runStage (adapterPhase x a batch inFeatures rank block) (threads 0) s).stored.filterMap
        Cell.output?=s.stored.filterMap Cell.output? := by
  refine runStage_inside (hn 0) (adapterPhase_apart block x a batch inFeatures rank s) ?_
  intro thread store hm
  obtain ⟨column,_,rfl⟩ := List.mem_map.mp hm
  rfl

/-- The intermediate behind the first barrier of `lora_fused`. -/
theorem adapterPhase_run {thread : ThreadIdx} (hrow : rowOf block thread<batch) {r : ℕ}
    (hr : r<rank) :
    (runStage (adapterPhase x a batch inFeatures rank block) (threads 0) s).memory
      (.adapter (thread.y*rank+r))=
        product x a rank inFeatures (rowOf block thread*rank+r) := by
  rw [runStage_memory (hn 0) (adapterPhase_apart block x a batch inFeatures rank s)]
  refine storeAll_value ?_ ?_
  · have hcolumn : r∈columnsOf rank kTile (r%kTile) :=
      (mem_columnsOf (Nat.mod_lt r (by decide))).mpr ⟨hr,rfl⟩
    exact List.mem_map.mpr ⟨_,List.mem_flatMap.mpr ⟨⟨thread.y,⟨r%kTile,Nat.mod_lt r (by decide)⟩⟩,
      hall _ _,List.mem_map.mpr ⟨r,hcolumn,rfl⟩⟩,rfl⟩
  · intro store hm he
    obtain ⟨other,_,hm⟩ := List.mem_flatMap.mp hm
    obtain ⟨column,hc,rfl⟩ := List.mem_map.mp hm
    have hlt := ((mem_columnsOf other.x.isLt).mp hc).1
    have hplace := Cell.adapter.inj he
    obtain ⟨hy,hcolumn⟩ := place_inj hlt hr hplace
    have hsame : rowOf block other=rowOf block thread := by rw [rowOf,hy,rowOf]
    rw [hsame,if_pos hrow,hcolumn,accumulate_eq,product,place_div hr,place_mod hr]

/-- A block of `lora_fused` before its last stage. -/
def fusedState (x w a : ℕ → K) (batch inFeatures outFeatures rank : ℕ) (block : BlockIdx)
    (threads : ℕ → List ThreadIdx) (s : BlockState ThreadIdx K Cell K) :
    BlockState ThreadIdx K Cell K :=
  runStages threads 1 (tileStages x w batch outFeatures inFeatures block
    (ceilDiv inFeatures kTile)) (runStage (adapterPhase x a batch inFeatures rank block)
      (threads 0) s)

/-- The tile loop of `lora_fused` keeps the intermediate. -/
theorem fusedState_kept : Kept (runStage (adapterPhase x a batch inFeatures rank block)
    (threads 0) s) (fusedState x w a batch inFeatures outFeatures rank block threads s) :=
  (tileStages_run hn hall 1 _ _).1

/-- What the threads of `lora_fused` store. -/
theorem storeFused_own (hzero : ∀ thread, s.registers thread=0) :
    OwnStore batch outFeatures block (storeFused b batch outFeatures rank scale block)
      (fun place _ => product x w outFeatures inFeatures place+scale*
        product (product x a rank inFeatures) b outFeatures rank place)
      (fusedState x w a batch inFeatures outFeatures rank block threads s) := by
  intro thread
  unfold storesOf storeFused
  dsimp only
  by_cases hin : rowOf block thread<batch ∧ colOf block thread<outFeatures
  · have hfrozen : (fusedState x w a batch inFeatures outFeatures rank block threads s).registers
        thread=product x w outFeatures inFeatures
          (rowOf block thread*outFeatures+colOf block thread) := by
      rw [fusedState,tileLoop_run hn hall 1 _ hin.1 hin.2,
        runStage_registers (hn 0) (adapterPhase_apart block x a batch inFeatures rank s)
          (hall 0 thread)]
      change s.registers thread+_=_
      rw [hzero,zero_add]
    have hadapter : accumulate rank (fun r =>
        (fusedState x w a batch inFeatures outFeatures rank block threads s).memory
          (.adapter (thread.y*rank+r))*b (r*outFeatures+colOf block thread))=
        product (product x a rank inFeatures) b outFeatures rank
          (rowOf block thread*outFeatures+colOf block thread) := by
      rw [accumulate_eq,product,place_div hin.2,place_mod hin.2]
      refine Finset.sum_congr rfl (fun r hr => ?_)
      rw [(fusedState_kept block hn hall x w a batch inFeatures outFeatures rank s).adapter,
        adapterPhase_run block hn hall x a batch inFeatures rank s hin.1 (Finset.mem_range.mp hr)]
    rw [if_neg (by omega),if_pos hin,hfrozen,hadapter]
  · rw [if_pos (by omega),if_neg hin]

/-- A block of `lora_fused`. -/
theorem loraFused_block :
    runBlock (loraFused x w a b batch inFeatures outFeatures rank scale block) threads shared
      output=
        some (rewriteAt (ownPlaces batch outFeatures block (threads
            ((tileStages x w batch outFeatures inFeatures block
              (ceilDiv inFeatures kTile)).length+1)))
          (fun place _ => product x w outFeatures inFeatures place+scale*
            product (product x a rank inFeatures) b outFeatures rank place) output,
          ownPlaces batch outFeatures block (threads
            ((tileStages x w batch outFeatures inFeatures block
              (ceilDiv inFeatures kTile)).length+1))) := by
  have hprograms : ∀ thread, loraFused x w a b batch inFeatures outFeatures rank scale block
      thread=((adapterPhase x a batch inFeatures rank block::tileStages x w batch outFeatures
        inFeatures block (ceilDiv inFeatures kTile))++
          [storeFused b batch outFeatures rank scale block]).map
            (fun stage : ThreadIdx → Stage K Cell K => stage thread) := by
    intro thread
    rw [loraFused,tileLoop_eq,List.map_append]
    rfl
  let start : BlockState ThreadIdx K Cell K := ⟨fun _ => 0,startMemory shared output,[]⟩
  have hkept := fusedState_kept block hn hall x w a batch inFeatures outFeatures rank start
  have hfirst := adapterPhase_inside block hn x a batch inFeatures rank start
  have hown := storeFused_own block hn hall x w a b batch inFeatures outFeatures rank
    scale start (fun _ => rfl)
  refine runBlock_cut hn hall hprograms (s := fusedState x w a batch inFeatures outFeatures rank
    block threads start) rfl (fun place => (hkept.output place).trans (hfirst.1 place))
    (hkept.stored.trans hfirst.2) (hown.apart ?_) hown
  intro thread memory hmemory _
  have hread : ∀ place, memory (.adapter place)=
      (fusedState x w a batch inFeatures outFeatures rank block threads start).memory
        (.adapter place) := fun place => hmemory _ rfl
  unfold storeFused
  simp only [hread]

end Fused

end Blockwise

end CudaForge.LoraBlocks
