import CudaForge.PackedDatasets

/-!
# The evaluation loss

`evaluate` weights the loss of each batch by its number of targets. The model's loss is
a parameter, of which its documentation says that it is the mean over the targets of a
batch; a batch is a list of items of a packed dataset.
-/

namespace CudaForge.EvaluationLoss

open PackedDatasets

variable {Token K : Type} [Field K]

/-- A float that a result reports. -/
inductive Figure (K : Type) where
  /-- Not a number. -/
  | nan
  /-- Positive infinity. -/
  | inf
  /-- A number. -/
  | value (x : K)

/-- `EvalResult`. -/
structure EvalResult (K : Type) where
  /-- The mean loss. -/
  loss : Figure K
  /-- Its exponential. -/
  perplexity : Figure K
  /-- How many targets there were. -/
  tokens : ℤ
  /-- How many batches. -/
  batches : ℕ

/-- The weight of a batch: its ones without one for each row, but not less than one. -/
def batchTokens (batch : List (PackedExample Token)) : ℤ :=
  max (((batch.map fun e => e.attention_mask.sum).sum : ℕ)-(batch.length : ℤ)) 1

/-- The loop of `evaluate`. -/
def evaluateFrom (loss : List (PackedExample Token) → K) (maxBatches : Option ℤ) :
    ℕ → K → ℤ → List (List (PackedExample Token)) → K×ℤ×ℕ
  | index,total,tokens,[] => (total,tokens,index)
  | index,total,tokens,batch::loader =>
    if (maxBatches.map fun most => decide (most ≤ (index : ℤ))).getD false then (total,tokens,index)
    else evaluateFrom loss maxBatches (index+1) (total+loss batch*(batchTokens batch : K))
      (tokens+batchTokens batch) loader

/-- The batches that are looked at. -/
def looked {α : Type} (maxBatches : Option ℤ) (loader : List α) : List α :=
  (maxBatches.map fun most => loader.take most.toNat).getD loader

/-- The loop adds up what it looks at. -/
theorem evaluateFrom_eq (loss : List (PackedExample Token) → K) (maxBatches : Option ℤ)
    (index : ℕ) (total : K) (tokens : ℤ) (loader : List (List (PackedExample Token))) :
    evaluateFrom loss maxBatches index total tokens loader=
      (let seen := looked (maxBatches.map fun most => most-index) loader
      (total+(seen.map fun batch => loss batch*(batchTokens batch : K)).sum,
        tokens+(seen.map batchTokens).sum,index+seen.length)) := by
  induction loader generalizing index total tokens with
  | nil =>
    have hseen : looked (maxBatches.map fun most => most-(index : ℤ))
        ([] : List (List (PackedExample Token)))=[] := by
      cases maxBatches with
      | none => rfl
      | some most => exact List.take_nil
    rw [hseen,evaluateFrom]
    simp only [List.map_nil,List.sum_nil,add_zero,List.length_nil]
  | cons batch loader ih =>
    rw [evaluateFrom]
    split
    · next hstop =>
      cases maxBatches with
      | none => exact absurd hstop Bool.false_ne_true
      | some most =>
        have hle : most ≤ index := of_decide_eq_true hstop
        have hseen : looked (some (most-(index : ℤ))) (batch::loader)=[] := by
          change (batch::loader).take (most-(index : ℤ)).toNat=[]
          rw [Int.toNat_eq_zero.mpr (by omega),List.take_zero]
        rw [Option.map_some,hseen]
        simp only [List.map_nil,List.sum_nil,add_zero,List.length_nil]
    · next hgo =>
      have hseen : looked (maxBatches.map fun most => most-(index : ℤ)) (batch::loader)=
          batch::looked (maxBatches.map fun most => most-((index+1 : ℕ) : ℤ)) loader := by
        cases maxBatches with
        | none => rfl
        | some most =>
          have hlt : (index : ℤ) < most := by
            by_contra hge
            exact hgo (decide_eq_true (Int.not_lt.mp hge))
          change (batch::loader).take (most-(index : ℤ)).toNat=
            batch::loader.take (most-((index+1 : ℕ) : ℤ)).toNat
          obtain ⟨n,hn⟩ : ∃ n, (most-(index : ℤ)).toNat=n+1 :=
            Nat.exists_eq_add_one.mpr (by omega)
          have hm : (most-((index+1 : ℕ) : ℤ)).toNat=n := by omega
          rw [hn,hm,List.take_succ_cons]
      rw [ih,hseen]
      simp only [List.map_cons,List.sum_cons,List.length_cons,add_assoc,Nat.add_comm 1]

variable [LinearOrder K] [IsStrictOrderedRing K]

/-- The perplexity of a mean loss. -/
def perplexityFromLoss (exp : K → K) (mean : K) : Figure K :=
  if mean<700 then .value (exp mean) else .inf

/-- `evaluate`. -/
def evaluate (exp : K → K) (loss : List (PackedExample Token) → K)
    (loader : List (List (PackedExample Token))) (maxBatches : Option ℤ) : EvalResult K :=
  let run := evaluateFrom loss maxBatches 0 0 0 loader
  if run.2.1=0 then ⟨.nan,.nan,0,0⟩
  else ⟨.value (run.1/(run.2.1 : K)),perplexityFromLoss exp (run.1/(run.2.1 : K)),run.2.1,run.2.2⟩

/-- The item that is made of a block. -/
def itemOf (block : List Token) : PackedExample Token :=
  ⟨block,List.replicate block.length 1,block⟩

/-- What a block's targets lose: each token but the last predicts the one after it. -/
def blockLoss (tokenLoss : List Token → ℕ → K) (block : List Token) : K :=
  ((List.range (block.length-1)).map (tokenLoss block)).sum

/-- The mean over a number of equally long blocks. -/
def meanLoss (tokenLoss : List Token → ℕ → K) (size : ℕ) (blocks : List (List Token)) : K :=
  (blocks.map (blockLoss tokenLoss)).sum/((blocks.length*(size-1) : ℕ) : K)

/-- What is documented of the model's loss. -/
def MeanOverTargets (loss : List (PackedExample Token) → K) (tokenLoss : List Token → ℕ → K) :
    Prop :=
  ∀ blocks : List (List Token), 0<(blocks.map fun block => block.length-1).sum →
    loss (blocks.map itemOf)=(blocks.map (blockLoss tokenLoss)).sum/
      (((blocks.map fun block => block.length-1).sum : ℕ) : K)

/-- The mean over the targets of a batch. -/
def targetMean (tokenLoss : List Token → ℕ → K) (batch : List (PackedExample Token)) : K :=
  (batch.map fun e => blockLoss tokenLoss e.input_ids).sum/
    (((batch.map fun e => e.input_ids.length-1).sum : ℕ) : K)

omit [LinearOrder K] [IsStrictOrderedRing K] in
/-- It is as documented. -/
theorem targetMean_documented (tokenLoss : List Token → ℕ → K) :
    MeanOverTargets (targetMean tokenLoss) tokenLoss := by
  intro blocks _
  rw [targetMean,List.map_map,List.map_map]
  rfl

/-- Blocks of one length have as many targets each. -/
theorem targets_eq {size : ℕ} {blocks : List (List Token)}
    (h : ∀ block∈blocks, block.length=size) :
    (blocks.map fun block => block.length-1).sum=blocks.length*(size-1) := by
  rw [List.map_congr_left (fun block hm => by rw [h block hm] :
    ∀ block∈blocks, block.length-1=size-1),List.map_const',List.sum_replicate,smul_eq_mul]

/-- The weight of a batch of full blocks is how many targets it has. -/
theorem batchTokens_eq {size : ℕ} (hsize : 2 ≤ size) {blocks : List (List Token)}
    (hne : blocks≠[]) (h : ∀ block∈blocks, block.length=size) :
    batchTokens (blocks.map itemOf)=((blocks.length*(size-1) : ℕ) : ℤ) := by
  have hones : ((blocks.map itemOf).map fun e => e.attention_mask.sum).sum=
      blocks.length*size := by
    rw [List.map_map,List.map_congr_left (fun block hm => by
      change (List.replicate block.length 1).sum=size
      rw [List.sum_replicate,smul_eq_mul,mul_one,h block hm] :
        ∀ block∈blocks, ((fun e : PackedExample Token => e.attention_mask.sum)∘itemOf) block=size),
      List.map_const',List.sum_replicate,smul_eq_mul]
  have hpos : 0<blocks.length := List.length_pos_iff.mpr hne
  have hsplit : blocks.length*size=blocks.length*(size-1)+blocks.length := by
    rw [←Nat.mul_succ,Nat.succ_eq_add_one,Nat.sub_add_cancel (by omega)]
  have hone : 1 ≤ blocks.length*(size-1) := Nat.mul_pos hpos (by omega)
  rw [batchTokens,hones,List.length_map]
  omega

/-- What the weighted losses of some batches of full blocks add up to. -/
theorem weighted_eq {loss : List (PackedExample Token) → K} {tokenLoss : List Token → ℕ → K}
    (hmean : MeanOverTargets loss tokenLoss) {size : ℕ} (hsize : 2 ≤ size)
    {batches : List (List (List Token))} (hne : ∀ batch∈batches, batch≠[])
    (h : ∀ batch∈batches, ∀ block∈batch, block.length=size) :
    (((batches.map fun batch => batch.map itemOf).map fun batch =>
        loss batch*(batchTokens batch : K)).sum=
      (batches.flatten.map (blockLoss tokenLoss)).sum) ∧
    ((batches.map fun batch => batch.map itemOf).map batchTokens).sum=
      ((batches.flatten.length*(size-1) : ℕ) : ℤ) := by
  induction batches with
  | nil => exact ⟨rfl,by rw [List.flatten_nil,List.length_nil,Nat.zero_mul]; rfl⟩
  | cons batch batches ih =>
    obtain ⟨hsum,hcount⟩ := ih (fun b hm => hne b (List.mem_cons_of_mem batch hm))
      (fun b hm => h b (List.mem_cons_of_mem batch hm))
    have hfull := h batch List.mem_cons_self
    have hsome := hne batch List.mem_cons_self
    have hpos : 0<batch.length*(size-1) :=
      Nat.mul_pos (List.length_pos_iff.mpr hsome) (by omega)
    have hcast : ((batch.length*(size-1) : ℕ) : K)≠0 := Nat.cast_ne_zero.mpr hpos.ne'
    have hloss := hmean batch (by rwa [targets_eq hfull])
    rw [targets_eq hfull] at hloss
    constructor
    · rw [List.map_cons,List.map_cons,List.sum_cons,hsum,batchTokens_eq hsize hsome hfull,hloss,
        Int.cast_natCast,div_mul_cancel₀ _ hcast,List.flatten_cons,List.map_append,
        List.sum_append]
    · rw [List.map_cons,List.map_cons,List.sum_cons,hcount,batchTokens_eq hsize hsome hfull,
        List.flatten_cons,List.length_append,Nat.add_mul,Nat.cast_add]

/-- The blocks of a dataset are full, and there is one. -/
theorem full_of_buildDataset {encode : List Char → List Token}
    {tokenizerEos eosTokenId : Option Token} {texts : List (List Char)} {blockSize : ℤ}
    {blocks : List (List Token)}
    (h : buildDataset encode tokenizerEos eosTokenId texts blockSize=.ok blocks) :
    0<blockSize ∧ ∀ block∈blocks, block.length=blockSize.toNat := by
  have hpos : 0<blockSize := by
    by_contra hneg
    rw [buildDataset,packTokenStream,if_pos (Int.not_lt.mp hneg)] at h
    exact absurd h (by simp only [bind,Except.bind,reduceCtorEq,not_false_eq_true])
  refine ⟨hpos,fun block hm => ?_⟩
  rw [buildDataset_eq encode tokenizerEos eosTokenId texts hpos rfl,packedCausalDataset] at h
  split at h
  · exact absurd h (by simp only [reduceCtorEq,not_false_eq_true])
  · rw [←Except.ok.inj h] at hm
    exact SeparatedStreams.length_of_mem_cut (Nat.div_mul_le_self _ _) hm

/-- Batches of items are batches of blocks. -/
theorem batches_of_items {α β : Type} {f : α → β} {batches : List (List β)} {xs : List α}
    (h : ∀ batch∈batches, ∀ y∈batch, ∃ x∈xs, y=f x) :
    ∃ blocks : List (List α), batches=blocks.map (fun batch => batch.map f) ∧
      ∀ batch∈blocks, ∀ x∈batch, x∈xs := by
  induction batches with
  | nil => exact ⟨[],rfl,fun batch hm => absurd hm List.not_mem_nil⟩
  | cons batch batches ih =>
    obtain ⟨rest,hrest,hmem⟩ := ih fun b hm => h b (List.mem_cons_of_mem batch hm)
    have hfirst : ∃ first : List α, batch=first.map f ∧ ∀ x∈first, x∈xs := by
      have hb := h batch List.mem_cons_self
      clear h hrest ih
      induction batch with
      | nil => exact ⟨[],rfl,fun x hm => absurd hm List.not_mem_nil⟩
      | cons y batch ih =>
        obtain ⟨first,hf,hin⟩ := ih fun z hm => hb z (List.mem_cons_of_mem y hm)
        obtain ⟨x,hx,rfl⟩ := hb y List.mem_cons_self
        refine ⟨x::first,by rw [hf,List.map_cons],fun z hm => ?_⟩
        rcases List.mem_cons.mp hm with rfl | hm
        · exact hx
        · exact hin z hm
    obtain ⟨first,hf,hin⟩ := hfirst
    refine ⟨first::rest,by rw [hf,hrest,List.map_cons],fun b hm => ?_⟩
    rcases List.mem_cons.mp hm with rfl | hm
    · exact hin
    · exact hmem b hm

end CudaForge.EvaluationLoss
