import CudaForge.PagedAttention
import CudaForge.RowMajor

/-!
# Paged attention equals contiguous attention

In every thread the loop over the context is the online softmax recurrence
over the scores of the located keys, since the block-wide sum of the padded
products is the dot product. The rows that the grid's blocks write are
disjoint, so the order in which the blocks run does not matter.
-/

namespace CudaForge.AttentionLayout

open Finset BlockReductions CacheBlocks OnlineSoftmax PagedAttention RowMajor WarpReductions

variable {K : Type} {g : Geometry} {a : Launch K} {sequence head : ℕ}

/-- The arguments that the launch does not refuse. -/
structure Served (a : Launch K) : Prop where
  sequences_pos : 0 < a.numSequences
  sequences_le : a.numSequences ≤ maxGridY
  heads_pos : 0 < a.numHeads
  kvHeads_pos : 0 < a.numKvHeads
  headDim_pos : 0 < a.headDim
  blockSize_pos : 0 < a.blockSize
  width_pos : 0 < a.maxBlocksPerSequence
  grouped : a.numHeads%a.numKvHeads=0
  headDim_le : a.headDim≤1024

/-- The caches hold a sequence's keys and values, for each KV head by token
and element, where its block table locates them. -/
structure Laid (a : Launch K) (sequence : ℕ) (table : SequenceBlockTable)
    (keys values : ℕ → ℕ → ℕ → K) : Prop where
  size_eq : table.blockSize=a.geometry.blockSize
  tokens_eq : table.tokens=(a.contextLens sequence).toNat
  fits : table.tokens≤table.capacity
  width : table.blocks.length≤a.geometry.maxBlocksPerSequence
  row_eq : ∀ (index : ℕ) (block : BlockId), table.blocks[index]?=some block →
    a.blockTables (sequence*a.geometry.maxBlocksPerSequence+index)=block
  keys_eq : ∀ (token : ℕ) (block : BlockId) (offset : ℕ),
    table.locate token=.ok (block,offset) → ∀ kvHead < a.geometry.numKvHeads,
      ∀ element < a.geometry.headDim,
        a.kCache (a.geometry.slot block offset kvHead+element)=keys kvHead token element
  values_eq : ∀ (token : ℕ) (block : BlockId) (offset : ℕ),
    table.locate token=.ok (block,offset) → ∀ kvHead < a.geometry.numKvHeads,
      ∀ element < a.geometry.headDim,
        a.vCache (a.geometry.slot block offset kvHead+element)=values kvHead token element

/-- When one of several writers writes an element and the others leave it
alone, it is written whatever the order. -/
theorem foldl_writes {β : Type} (write : β → (ℕ → K) → ℕ → K) {block : β} {index : ℕ} {value : K}
    (hw : ∀ out, write block out index=value) (order : List β) :
    ∀ out : ℕ → K, (∀ other∈order, other≠block → ∀ out, write other out index=out index) →
      (block∈order ∨ out index=value) →
      order.foldl (fun out other => write other out) out index=value := by
  classical
  induction order with
  | nil => exact fun _ _ hm => hm.resolve_left List.not_mem_nil
  | cons first rest ih =>
    intro out ho hm
    refine ih (write first out) (fun other hr => ho other (List.mem_cons_of_mem _ hr)) ?_
    by_cases he : first=block
    · exact Or.inr (he ▸ hw out)
    · rcases hm with hm | hv
      · exact Or.inl ((List.mem_cons.mp hm).resolve_left (fun hb => he hb.symm))
      · exact Or.inr ((ho first List.mem_cons_self he out).trans hv)

/-- Two rows share no element. -/
theorem rows_disjoint {sequence' head' element element' : ℕ} (hh : head < g.numHeads)
    (hh' : head' < g.numHeads) (he : element < g.headDim) (he' : element' < g.headDim)
    (h : g.row sequence head+element=g.row sequence' head'+element') :
    sequence=sequence' ∧ head=head' := by
  rw [Geometry.row,Geometry.row] at h
  exact place_inj hh hh' (place_inj he he' h).1

/-- Heads in equal groups have a KV head each. -/
theorem kvHead_lt (hg : g.numKvHeads ∣ g.numHeads)
    (hh : head < g.numHeads) : g.kvHead head < g.numKvHeads := by
  rw [Geometry.kvHead]
  refine Nat.div_lt_of_lt_mul ?_
  rwa [Nat.div_mul_cancel hg]

/-- A located token is where the kernel reads it. -/
theorem Laid.locate {table : SequenceBlockTable} {keys values : ℕ → ℕ → ℕ → K}
    (hl : Laid a sequence table keys values) {token : ℕ} (ht : token < table.tokens) :
    table.locate token=.ok
      (a.blockTables (sequence*a.geometry.maxBlocksPerSequence+token/a.geometry.blockSize),
        token%a.geometry.blockSize) := by
  have hc : token < table.blocks.length*table.blockSize := ht.trans_le hl.fits
  have hi : token/table.blockSize < table.blocks.length :=
    Nat.div_lt_of_lt_mul (by rwa [Nat.mul_comm])
  have hb := List.getElem?_eq_getElem hi
  rw [←hl.size_eq,hl.row_eq _ _ hb,SequenceBlockTable.locate,if_neg (Nat.not_le.mpr ht),hb]

/-- What the kernel reads of a token is its key and its value. -/
theorem Laid.reads {table : SequenceBlockTable} {keys values : ℕ → ℕ → ℕ → K}
    (hl : Laid a sequence table keys values) (hk : a.geometry.kvHead head < a.geometry.numKvHeads)
    {token element : ℕ} (ht : token < table.tokens) (he : element < a.geometry.headDim) :
    a.kCache (a.tokenSlot sequence head token+element)=
        keys (a.geometry.kvHead head) token element ∧
      a.vCache (a.tokenSlot sequence head token+element)=
        values (a.geometry.kvHead head) token element :=
  ⟨hl.keys_eq _ _ _ (hl.locate ht) _ hk _ he,hl.values_eq _ _ _ (hl.locate ht) _ hk _ he⟩

/-- The threads of a block cover a row. -/
theorem headDim_le_threads (g : Geometry) : g.headDim≤g.threads := by
  rw [Geometry.threads,ceilDiv,warpSize]
  omega

/-- The sizes of a served launch. -/
theorem Served.sizes (hv : Served a) : a.geometry.headDim≤1024 ∧
    a.geometry.numKvHeads ∣ a.geometry.numHeads := by
  refine ⟨?_,?_⟩
  · have hd := hv.headDim_le
    show a.headDim.toNat≤1024
    omega
  · obtain ⟨heads,hh⟩ := Int.eq_ofNat_of_zero_le hv.heads_pos.le
    obtain ⟨kvHeads,hk⟩ := Int.eq_ofNat_of_zero_le hv.kvHeads_pos.le
    have hg := Int.dvd_of_emod_eq_zero hv.grouped
    show a.numKvHeads.toNat ∣ a.numHeads.toNat
    rw [hh,hk] at hg ⊢
    exact Int.natCast_dvd_natCast.mp hg

/-- The grid has one block for each sequence and head. -/
theorem mem_grid {block : ℕ×ℕ} :
    block∈a.grid ↔ block.1 < a.numSequences.toNat ∧ block.2 < a.geometry.numHeads := by
  obtain ⟨sequence,head⟩ := block
  rw [Launch.grid,List.pair_mem_product,List.mem_range,List.mem_range]
  rfl

/-- A cache in which a sequence's tokens were stored where its table locates
them; the other tokens are left as they were. -/
def store (g : Geometry) (table : SequenceBlockTable) (data : ℕ → ℕ → ℕ → K)
    (cache : ℕ → K) (index : ℕ) : K :=
  let line := index/g.headDim/g.numKvHeads
  let token := table.blocks.idxOf (line/g.blockSize)*g.blockSize+line%g.blockSize
  if token < table.tokens then data (index/g.headDim%g.numKvHeads) token (index%g.headDim)
  else cache index

/-- What a located token's place is. -/
theorem locate_place {table : SequenceBlockTable} {token : ℕ} {block : BlockId} {offset : ℕ}
    (hl : table.locate token=.ok (block,offset)) : token < table.tokens ∧
      table.blocks[token/table.blockSize]?=some block ∧ offset=token%table.blockSize := by
  rw [SequenceBlockTable.locate] at hl
  split at hl
  · cases hl
  · next ht =>
    split at hl
    · cases hl
    · next hb =>
      obtain ⟨rfl,rfl⟩ := Prod.mk.inj (Except.ok.inj hl)
      exact ⟨Nat.lt_of_not_le ht,hb,rfl⟩

/-- The line, KV head and element of an index. -/
theorem slot_digits (block : ℕ) {offset kvHead element : ℕ} (ho : offset < g.blockSize)
    (hk : kvHead < g.numKvHeads) (he : element < g.headDim) :
    let index := g.slot block offset kvHead+element
    index%g.headDim=element ∧ index/g.headDim%g.numKvHeads=kvHead ∧
      index/g.headDim/g.numKvHeads/g.blockSize=block ∧
      index/g.headDim/g.numKvHeads%g.blockSize=offset := by
  simp only [Geometry.slot,place_div he,place_mod he,place_div hk,place_mod hk,place_div ho,
    place_mod ho,and_self]

/-- When the physical blocks are distinct a stored token is found where it is
located. -/
theorem store_located {table : SequenceBlockTable} (hn : table.blocks.Nodup)
    (hz : table.blockSize=g.blockSize) (hb : 0 < g.blockSize) (data : ℕ → ℕ → ℕ → K)
    (cache : ℕ → K) {token : ℕ} {block : BlockId} {offset : ℕ}
    (hl : table.locate token=.ok (block,offset)) {kvHead element : ℕ}
    (hk : kvHead < g.numKvHeads) (he : element < g.headDim) :
    store g table data cache (g.slot block offset kvHead+element)=data kvHead token element := by
  obtain ⟨ht,hget,rfl⟩ := locate_place hl
  rw [hz] at hget ⊢
  obtain ⟨hlt,hget⟩ := List.getElem?_eq_some_iff.mp hget
  obtain ⟨h1,h2,h3,h4⟩ := slot_digits block (Nat.mod_lt token hb) hk he
  have hi : table.blocks.idxOf block=token/g.blockSize := by
    rw [←hget]
    exact hn.idxOf_getElem _ hlt
  simp only [store,h1,h2,h3,h4,hi,Nat.div_add_mod',if_pos ht]

/-- Storing a sequence leaves the blocks of others alone. -/
theorem store_elsewhere {table : SequenceBlockTable} (hf : table.tokens≤table.capacity)
    (hz : table.blockSize=g.blockSize) (data : ℕ → ℕ → ℕ → K) (cache : ℕ → K) {block : BlockId}
    (hb : block∉table.blocks) {offset kvHead element : ℕ} (ho : offset < g.blockSize)
    (hk : kvHead < g.numKvHeads) (he : element < g.headDim) :
    store g table data cache (g.slot block offset kvHead+element)=
      cache (g.slot block offset kvHead+element) := by
  obtain ⟨h1,h2,h3,h4⟩ := slot_digits block ho hk he
  rw [SequenceBlockTable.capacity,hz] at hf
  have hi : table.blocks.idxOf block=table.blocks.length := List.idxOf_eq_length_iff.mpr hb
  simp only [store,h3,h4,hi]
  rw [if_neg (by omega)]

/-- The tables of several sequences: of the launch's block size, with room for
their tokens, and with distinct physical blocks. -/
structure Distinct (g : Geometry) (count : ℕ) (tables : ℕ → SequenceBlockTable) : Prop where
  size_eq : ∀ sequence < count, (tables sequence).blockSize=g.blockSize
  fits : ∀ sequence < count, (tables sequence).tokens≤(tables sequence).capacity
  nodup : ∀ sequence < count, (tables sequence).blocks.Nodup
  disjoint : ∀ sequence < count, ∀ other < count, sequence≠other →
    ∀ block∈(tables sequence).blocks, block∉(tables other).blocks

/-- A cache in which the sequences' tokens were stored one after another. -/
def storeAll (g : Geometry) (tables : ℕ → SequenceBlockTable) (data : ℕ → ℕ → ℕ → ℕ → K)
    (cache : ℕ → K) : ℕ → ℕ → K
  | 0 => cache
  | count+1 => store g (tables count) (data count) (storeAll g tables data cache count)

/-- Over distinct blocks every token is found where it is located. -/
theorem storeAll_located {count : ℕ} {tables : ℕ → SequenceBlockTable} (hb : 0 < g.blockSize)
    (hd : Distinct g count tables) (data : ℕ → ℕ → ℕ → ℕ → K) (cache : ℕ → K)
    (hq : sequence < count) {token : ℕ} {block : BlockId} {offset : ℕ}
    (hl : (tables sequence).locate token=.ok (block,offset)) {kvHead element : ℕ}
    (hk : kvHead < g.numKvHeads) (he : element < g.headDim) :
    storeAll g tables data cache count (g.slot block offset kvHead+element)=
      data sequence kvHead token element := by
  induction count with
  | zero => exact absurd hq (Nat.not_lt_zero sequence)
  | succ count ih =>
    have hlast := Nat.lt_succ_self count
    rw [storeAll]
    by_cases hs : sequence=count
    · subst hs
      exact store_located (hd.nodup _ hlast) (hd.size_eq _ hlast) hb _ _ hl hk he
    · obtain ⟨_,hget,rfl⟩ := locate_place hl
      have hm := List.mem_of_getElem? hget
      have hlt : token%(tables sequence).blockSize < g.blockSize := by
        rw [hd.size_eq _ hq]
        exact Nat.mod_lt token hb
      rw [store_elsewhere (hd.fits _ hlast) (hd.size_eq _ hlast) _ _
        (hd.disjoint _ hq _ hlast hs _ hm) hlt hk he]
      refine ih ⟨fun s h => hd.size_eq s (h.trans hlast),fun s h => hd.fits s (h.trans hlast),
        fun s h => hd.nodup s (h.trans hlast),
        fun s h o h' => hd.disjoint s (h.trans hlast) o (h'.trans hlast)⟩ (by omega)

/-- Keys and values stored over distinct blocks are laid out for the kernel. -/
theorem laid_storeAll {tables : ℕ → SequenceBlockTable} {keys values : ℕ → ℕ → ℕ → ℕ → K}
    {kCache vCache : ℕ → K} {count : ℕ} (hb : 0 < a.geometry.blockSize)
    (hd : Distinct a.geometry count tables)
    (hkeys : a.kCache=storeAll a.geometry tables keys kCache count)
    (hvalues : a.vCache=storeAll a.geometry tables values vCache count)
    (hq : sequence < count) (ht : (tables sequence).tokens=(a.contextLens sequence).toNat)
    (hw : (tables sequence).blocks.length≤a.geometry.maxBlocksPerSequence)
    (hr : ∀ (index : ℕ) (block : BlockId), (tables sequence).blocks[index]?=some block →
      a.blockTables (sequence*a.geometry.maxBlocksPerSequence+index)=block) :
    Laid a sequence (tables sequence) (keys sequence) (values sequence) := by
  refine ⟨hd.size_eq _ hq,ht,hd.fits _ hq,hw,hr,?_,?_⟩
  · intro token block offset hl kvHead hk element he
    rw [hkeys]
    exact storeAll_located hb hd keys kCache hq hl hk he
  · intro token block offset hl kvHead hk element he
    rw [hvalues]
    exact storeAll_located hb hd values vCache hq hl hk he

variable [Field K]

/-- Attention over contiguous keys and values: what a query's scaled scores
make of the values at one element. -/
def attention (exp : K → K) (scale : K) (headDim : ℕ) (query : ℕ → K) (keys values : ℕ → ℕ → K)
    (context element : ℕ) : K :=
  average exp (fun token => scale*∑ e ∈ range headDim,query e*keys token e)
    (fun token => values token element) context

/-- The block-wide sum of the padded products is the dot product. -/
theorem reduced_eq (hd : g.headDim≤1024) (query keys shared : ℕ → K) (first second thread : ℕ) :
    (blockReduceSum g.threads
      (fun thread => g.element query first thread*g.element keys second thread) shared).1 thread=
        ∑ e ∈ range g.headDim,query (first+e)*keys (second+e) := by
  have hw : ceilDiv g.headDim warpSize≤warpSize := by
    rw [ceilDiv,warpSize]
    omega
  rw [Geometry.threads,blockReduceSum_eq hw,←Geometry.threads,sum_padded (headDim_le_threads g)]
  · refine sum_congr rfl (fun e he => ?_)
    have he := mem_range.mp he
    rw [Geometry.element,Geometry.element,if_pos he,if_pos he]
  · intro other _ ho
    rw [Geometry.element,if_neg (Nat.not_lt.mpr ho),zero_mul]

/-- The score of a token, as the kernel computes it. -/
def score (a : Launch K) (sequence head token : ℕ) : K :=
  (∑ e ∈ range a.geometry.headDim,a.query (a.geometry.row sequence head+e)*
    a.kCache (a.tokenSlot sequence head token+e))*a.scale

section Loop

variable [LinearOrder K] {exp : K → K} {fltMax : K}

/-- In every thread the loop is the online softmax recurrence. -/
theorem tokenLoop_eq (hd : a.geometry.headDim≤1024) (exp : K → K) (fltMax : K)
    (sequence head : ℕ) (shared : ℕ → K) (thread count : ℕ) :
    let r := (a.tokenLoop exp fltMax sequence head shared count).registers thread
    (⟨r.runningMax,r.runningSum,r.accumulator⟩ : Running K)=
      absorbAll exp (-fltMax) (score a sequence head)
        (fun token => a.geometry.element a.vCache (a.tokenSlot sequence head token) thread)
        count := by
  induction count with
  | zero => rfl
  | succ count ih =>
    simp only [absorbAll,←ih]
    simp only [Launch.tokenLoop,Launch.tokenStep,reduced_eq hd]
    rfl

/-- What a thread of the row writes: the average of the values with softmax
weights, and zero for an empty context. -/
theorem result_eq (h : Exponential exp) (hd : a.geometry.headDim≤1024)
    (hs : ∀ token < (a.contextLens sequence).toNat, -fltMax < score a sequence head token)
    (shared : ℕ → K) {element : ℕ} (he : element < a.geometry.headDim) :
    a.result exp fltMax shared sequence head element=
      average exp (score a sequence head)
        (fun token => a.vCache (a.tokenSlot sequence head token+element))
        (a.contextLens sequence).toNat := by
  rw [Launch.result]
  by_cases hc : a.contextLens sequence≤0
  · rw [if_pos hc,Int.toNat_of_nonpos hc,average_zero]
  · have hl := tokenLoop_eq hd exp fltMax sequence head shared element
      (a.contextLens sequence).toNat
    have hv : (fun token => a.geometry.element a.vCache (a.tokenSlot sequence head token) element)=
        fun token => a.vCache (a.tokenSlot sequence head token+element) :=
      funext (fun _ => if_pos he)
    rw [hv] at hl
    rw [if_neg hc,←absorbAll_average h hs,←hl]

/-- A served launch runs every block of the grid. -/
theorem Served.run_eq (hv : Served a) (exp : K → K) (fltMax : K) (shared : ℕ×ℕ → ℕ → K)
    (order : List (ℕ×ℕ)) (out : ℕ → K) :
    a.run exp fltMax shared order out=some (order.foldl
      (fun out block => a.kernel exp fltMax (shared block) block.1 block.2 out) out) := by
  have hp : ¬(a.numSequences≤0 ∨ a.numHeads≤0 ∨ a.numKvHeads≤0 ∨ a.headDim≤0 ∨ a.blockSize≤0 ∨
      a.maxBlocksPerSequence≤0) := by
    obtain ⟨_,_,_,_,_,_,_,_,_⟩ := hv
    omega
  rw [Launch.run,if_neg hp,if_neg (not_not.mpr hv.grouped),if_neg (not_lt.mpr hv.headDim_le),
    if_neg (not_lt.mpr hv.sequences_le)]

/-- For every order of the grid's blocks and whatever their shared memory
held, the launch writes attention over the contiguous keys and values of the
KV head that the head reads. -/
theorem run_attention (h : Exponential exp) (hv : Served a) {tables : ℕ → SequenceBlockTable}
    {keys values : ℕ → ℕ → ℕ → ℕ → K}
    (hl : ∀ sequence < a.numSequences.toNat,
      Laid a sequence (tables sequence) (keys sequence) (values sequence))
    (hs : ∀ sequence < a.numSequences.toNat, ∀ head < a.geometry.numHeads,
      ∀ token < (a.contextLens sequence).toNat,
        -fltMax < a.scale*∑ e ∈ range a.geometry.headDim,
          a.query (a.geometry.row sequence head+e)*
            keys sequence (a.geometry.kvHead head) token e)
    (shared : ℕ×ℕ → ℕ → K) {order : List (ℕ×ℕ)} (ho : order.Perm a.grid) (out : ℕ → K) :
    ∃ after, a.run exp fltMax shared order out=some after ∧
      ∀ sequence < a.numSequences.toNat, ∀ head < a.geometry.numHeads,
        ∀ element < a.geometry.headDim,
          after (a.geometry.row sequence head+element)=
            attention exp a.scale a.geometry.headDim
              (fun e => a.query (a.geometry.row sequence head+e))
              (keys sequence (a.geometry.kvHead head)) (values sequence (a.geometry.kvHead head))
              (a.contextLens sequence).toNat element := by
  refine ⟨_,hv.run_eq exp fltMax shared order out,?_⟩
  intro sequence hseq head hhead element he
  obtain ⟨hd,hg⟩ := hv.sizes
  have hk := kvHead_lt hg hhead
  have hlaid := hl sequence hseq
  have hscore : ∀ token < (a.contextLens sequence).toNat, score a sequence head token=
      a.scale*∑ e ∈ range a.geometry.headDim,a.query (a.geometry.row sequence head+e)*
        keys sequence (a.geometry.kvHead head) token e := by
    intro token ht
    rw [←hlaid.tokens_eq] at ht
    rw [score,mul_comm]
    refine congrArg (a.scale*·) (sum_congr rfl (fun e hm => ?_))
    rw [(hlaid.reads hk ht (mem_range.mp hm)).1]
  have hown : ∀ out, a.kernel exp fltMax (shared (sequence,head)) sequence head out
      (a.geometry.row sequence head+element)=
        attention exp a.scale a.geometry.headDim
          (fun e => a.query (a.geometry.row sequence head+e))
          (keys sequence (a.geometry.kvHead head)) (values sequence (a.geometry.kvHead head))
          (a.contextLens sequence).toNat element := by
    intro out
    have hlt := he.trans_le (headDim_le_threads a.geometry)
    rw [Launch.kernel,Nat.add_sub_cancel_left,if_pos ⟨Nat.le_add_right _ _,he,hlt⟩,
      result_eq h hd (fun token ht => by rw [hscore token ht]; exact hs _ hseq _ hhead _ ht)
        (shared (sequence,head)) he,attention]
    refine average_congr (fun token ht => ⟨hscore token ht,?_⟩)
    rw [←hlaid.tokens_eq] at ht
    exact (hlaid.reads hk ht he).2
  refine foldl_writes
    (fun (block : ℕ×ℕ) out => a.kernel exp fltMax (shared block) block.1 block.2 out)
    hown order out ?_ (Or.inl (ho.mem_iff.mpr (mem_grid.mpr ⟨hseq,hhead⟩)))
  intro other hm hne out
  obtain ⟨_,hother⟩ := mem_grid.mp (ho.mem_iff.mp hm)
  rw [Launch.kernel,if_neg]
  rintro ⟨hr,hlt,_⟩
  have hrow : a.geometry.row sequence head+element=a.geometry.row other.1 other.2+
      (a.geometry.row sequence head+element-a.geometry.row other.1 other.2) := by omega
  obtain ⟨h1,h2⟩ := rows_disjoint hhead hother he hlt hrow
  exact hne (Prod.ext h1.symm h2.symm)

end Loop

/-- Two sequences of three tokens and one, in blocks of two. -/
def sampleTables (sequence : ℕ) : SequenceBlockTable :=
  if sequence=0 then ⟨0,2,3,[5,0]⟩ else ⟨1,2,1,[3]⟩

/-- Every element of a key or a value is the token's index. -/
def sampleData (_ _ token _ : ℕ) : ℝ := token

/-- Two heads share one KV head of two elements. -/
def sampleGeometry : Geometry := ⟨2,1,2,2,2⟩

/-- The launch over both sequences, whose caches held nothing else. -/
def sampleLaunch : Launch ℝ where
  query _ := 1
  kCache := storeAll sampleGeometry sampleTables sampleData (fun _ => 0) 2
  vCache := storeAll sampleGeometry sampleTables sampleData (fun _ => 0) 2
  blockTables index := [5,0,3,0].getD index 0
  contextLens sequence := if sequence=0 then 3 else 1
  numSequences := 2
  numHeads := 2
  numKvHeads := 1
  headDim := 2
  blockSize := 2
  maxBlocksPerSequence := 2
  scale := 1

theorem sampleLaunch_laid : ∀ sequence < 2,
    Laid sampleLaunch sequence (sampleTables sequence) (sampleData sequence)
      (sampleData sequence) := by
  have hd : Distinct sampleGeometry 2 sampleTables := by
    refine ⟨by decide,by decide,by decide,?_⟩
    intro sequence hs other ho hne
    interval_cases sequence <;> interval_cases other
    · exact absurd rfl hne
    · show ∀ block∈[5,0], block∉[3]
      decide
    · show ∀ block∈[3], block∉[5,0]
      decide
    · exact absurd rfl hne
  intro sequence hs
  refine laid_storeAll (by decide) hd rfl rfl hs ?_ ?_ ?_
  · interval_cases sequence <;> rfl
  · interval_cases sequence <;> decide
  · intro index block hb
    interval_cases sequence
    · rcases index with _ | _ | index
      · exact Option.some.inj hb
      · exact Option.some.inj hb
      · exact nomatch hb
    · rcases index with _ | index
      · exact Option.some.inj hb
      · exact nomatch hb

/-- The second head's second element for the first sequence. -/
theorem sampleLaunch_attention :
    ∃ after, sampleLaunch.run Real.exp 340282346638528859811704183484516925440 (fun _ _ => 0)
        sampleLaunch.grid (fun _ => 0)=some after ∧
      after (sampleGeometry.row 0 1+1)=
        attention Real.exp 1 2 (fun _ => 1) (fun token _ => token) (fun token _ => token) 3 1 := by
  have hexp : Exponential Real.exp := ⟨Real.exp_pos,Real.exp_add⟩
  have hv : Served sampleLaunch := by
    constructor <;> decide
  have hscores : ∀ sequence < sampleLaunch.numSequences.toNat,
      ∀ head < sampleLaunch.geometry.numHeads,
        ∀ token < (sampleLaunch.contextLens sequence).toNat,
          -(340282346638528859811704183484516925440 : ℝ) <
            sampleLaunch.scale*∑ e ∈ range sampleLaunch.geometry.headDim,
              sampleLaunch.query (sampleLaunch.geometry.row sequence head+e)*
                sampleData sequence (sampleLaunch.geometry.kvHead head) token e := by
    intro sequence _ head _ token _
    have hz : (0 : ℝ)≤1*∑ e ∈ range sampleLaunch.geometry.headDim,1*sampleData 0 0 token e :=
      mul_nonneg zero_le_one (sum_nonneg (fun e _ =>
        mul_nonneg zero_le_one (Nat.cast_nonneg token)))
    exact lt_of_lt_of_le (by norm_num) hz
  obtain ⟨after,hrun,hall⟩ := run_attention hexp hv sampleLaunch_laid hscores (fun _ _ => 0)
    (List.Perm.refl _) (fun _ => 0)
  exact ⟨after,hrun,hall 0 (by decide) 1 (by decide) 1 (by decide)⟩

/-- One sequence more than a grid takes, all of them with an empty context. -/
def longLaunch : Launch ℝ :=
  ⟨fun _ => 1,fun _ => 0,fun _ => 0,fun _ => 0,fun _ => 0,65536,1,1,1,1,1,1⟩

/-- Its output is not written with zeros. -/
theorem longLaunch_refused :
    ¬∃ after, longLaunch.run Real.exp 340282346638528859811704183484516925440 (fun _ _ => 0)
        longLaunch.grid (fun _ => 7)=some after ∧
      ∀ sequence < 65536, after (longLaunch.geometry.row sequence 0)=0 := by
  rintro ⟨after,hrun,_⟩
  have hlong : maxGridY < longLaunch.numSequences := by decide
  rw [Launch.run,if_neg (by decide),if_neg (by decide),if_neg (by decide),if_pos hlong] at hrun
  cases hrun

end CudaForge.AttentionLayout
