import CudaForge.TokenSampling

/-!
# The filters of one row

The softmax of a row as weights over their sum, and what speculative decoding
makes of one row of logits: the row scaled, filtered by rank, turned into
probabilities, filtered by mass and normalised again. Filtering the logits by
mass and then taking the softmax gives the same probabilities, since an
exponential that keeps the order sorts them alike.
-/

namespace CudaForge.RowDistributions

open PythonBuiltins GenerationSettings BatchTensors TokenSampling

section Definitions

variable {α : Type}

/-- `masked_fill`: one value wherever a flag is set. -/
def maskedFill (value : α) (entries : List α) (flags : List Bool) : List α :=
  (entries.zip flags).map (fun pair => if pair.2 then value else pair.1)

/-- `scatter` of entries over themselves: each to the place of its index. -/
def scatter (order : List ℕ) (entries : List α) : List α :=
  (order.zip entries).foldl (fun row pair => row.set pair.1 pair.2) entries

variable {K : Type} [Field K] [LinearOrder K]

/-- What an entry weighs: nothing when it is masked. -/
def weight (exp : ℚ → K) (entry : WithBot ℚ) : K := (entry.map exp).unbotD 0

/-- The weights of a row over their sum. -/
def softmaxOf (exp : ℚ → K) : Softmax K := fun row =>
  (row.map (weight exp)).map (·/(row.map (weight exp)).sum)

/-- A row without what lies below the last of its `k` largest entries; zero
keeps everything. -/
def maskTopK (k : ℕ) (row : List (WithBot ℚ)) : List (WithBot ℚ) :=
  if 0<k then
    let limit := min k row.length
    let threshold := ((descending row).take limit).getLast?.getD ⊥
    row.map (fun entry => if entry<threshold then ⊥ else entry)
  else row

/-- Which of the sorted entries lie beyond the mass threshold: those in front
of which more than it has gone by, never the first. -/
def beyondMass {K : Type} [Zero K] [Add K] [Sub K] [LT K] [DecidableLT K] (topP : K)
    (mass : List K) : List Bool :=
  (((cumulative 0 mass).zip mass).map (fun pair => decide (topP<pair.1-pair.2))).set 0 false

/-- Probabilities without the tail beyond the mass threshold, normalised
again. -/
def nucleus (topP : K) (probabilities : List K) : List K :=
  let pairs := probabilities.zipIdx.mergeSort (fun x y => decide (y.1≤x.1))
  let ordered := pairs.map Prod.fst
  let order := pairs.map Prod.snd
  let kept := maskedFill 0 ordered (beyondMass topP ordered)
  let filtered := scatter order kept
  filtered.map (·/filtered.sum)

/-- `_distribution`: one row of logits turned into the sampling
distribution. -/
def distribution (exp : ℚ → K) (logits : List ℚ) (generation : GenerationConfig) : List K :=
  let scaled := logits.map
    (fun logit => ((logit/max generation.temperature (1/1000000) : ℚ) : WithBot ℚ))
  let probabilities := softmaxOf exp (maskTopK generation.topK scaled)
  if generation.topP<1 then nucleus (generation.topP : K) probabilities else probabilities

end Definitions

section Rank

variable {row : List (WithBot ℚ)} {limit k : ℕ}

/-- The threshold of a row does not depend on how many entries the batch
looks at. -/
theorem keepTopK_eq (hk : k≤limit) (hr : k≤row.length) :
    keepTopK limit k row=maskTopK k row := by
  rw [keepTopK,maskTopK]
  by_cases h0 : 0<k
  · have hl : ((descending row).take (min k row.length)).length=k := by
      rw [List.length_take,descending,List.length_mergeSort]
      omega
    have hi : min (max k 1-1) (limit-1)=k-1 := by omega
    have hlast : ((descending row).take limit)[k-1]?=
        ((descending row).take (min k row.length)).getLast? := by
      rw [List.getLast?_eq_getElem?,hl,List.getElem?_take_of_lt (by omega),
        List.getElem?_take_of_lt (by omega)]
    simp only [h0,and_true,hi,hlast,if_true]
  · simp only [h0,and_false,if_false,List.map_id']

/-- The filter by rank, row by row. -/
theorem filterTopK_rows {topK : List ℕ} {scaled : List (List (WithBot ℚ))}
    (hl : scaled.length=topK.length) (h : ∀ k∈topK, ∀ row∈scaled, k≤row.length) :
    filterTopK topK scaled=.ok ((scaled.zip topK).map (fun pair => maskTopK pair.2 pair.1)) := by
  rw [filterTopK_eq h]
  refine congrArg Except.ok ?_
  by_cases hany : topK.any (fun k => decide (0<k))=true
  · rw [if_pos hany]
    refine List.map_congr_left ?_
    intro pair hp
    obtain ⟨hrow,hk⟩ := List.of_mem_zip hp
    exact keepTopK_eq (le_foldl_max (Or.inr hk)) (h _ hk _ hrow)
  · have hzero : ∀ pair∈scaled.zip topK, maskTopK pair.2 pair.1=pair.1 := by
      intro pair hp
      refine if_neg fun h0 => hany ?_
      exact List.any_eq_true.mpr ⟨pair.2,(List.of_mem_zip hp).2,decide_eq_true h0⟩
    rw [if_neg hany,List.map_congr_left hzero]
    exact (List.map_fst_zip hl.le).symm

/-- The entry at the threshold stays, so no row is masked throughout. -/
theorem maskTopK_keeps (hr : row≠[]) (hb : ∀ entry∈row, entry≠⊥) :
    ∃ entry∈maskTopK k row, entry≠⊥ := by
  rw [maskTopK]
  by_cases h0 : 0<k
  · have hlen : 0<row.length := List.length_pos_iff.mpr hr
    have hne : (descending row).take (min k row.length)≠[] := by
      rw [←List.length_pos_iff,List.length_take,descending,List.length_mergeSort]
      omega
    have hm : ((descending row).take (min k row.length)).getLast?.getD ⊥∈row := by
      rw [List.getLast?_eq_some_getLast hne,Option.getD_some]
      exact List.mem_mergeSort.mp (List.mem_of_mem_take (List.getLast_mem hne))
    rw [if_pos h0]
    exact ⟨_,List.mem_map.mpr ⟨_,hm,if_neg (lt_irrefl _)⟩,hb _ hm⟩
  · obtain ⟨entry,he⟩ := List.exists_mem_of_ne_nil row hr
    rw [if_neg h0]
    exact ⟨entry,he,hb entry he⟩

end Rank

section Scatter

variable {α β : Type}

/-- Filling what a function makes of the entries. -/
theorem maskedFill_map (f : α → β) (value : α) (entries : List α) (flags : List Bool) :
    maskedFill (f value) (entries.map f) flags=(maskedFill value entries flags).map f := by
  rw [maskedFill,maskedFill,List.zip_map_left,List.map_map,List.map_map]
  refine List.map_congr_left ?_
  intro pair _
  exact (apply_ite f _ _ _).symm

/-- Where no flag is set, nothing is filled. -/
theorem maskedFill_none {value : α} {entries : List α} {flags : List Bool}
    (hl : entries.length=flags.length) (h : ∀ flag∈flags, flag=false) :
    maskedFill value entries flags=entries := by
  have hfst : ∀ pair∈entries.zip flags,
      (if pair.2=true then value else pair.1)=pair.1 := by
    intro pair hp
    rw [h _ (List.of_mem_zip hp).2]
    rfl
  rw [maskedFill,List.map_congr_left hfst]
  exact List.map_fst_zip hl.le

/-- Writing what a function makes of the entries. -/
theorem foldl_set_map (f : α → β) (writes : List (ℕ×α)) : ∀ start : List α,
    (writes.map (Prod.map id f)).foldl (fun row pair => row.set pair.1 pair.2) (start.map f)=
      (writes.foldl (fun row pair => row.set pair.1 pair.2) start).map f := by
  induction writes with
  | nil => exact fun _ => rfl
  | cons write writes ih =>
    intro start
    rw [List.map_cons,List.foldl_cons,List.foldl_cons,←ih,List.map_set]
    rfl

/-- Scattering what a function makes of the entries. -/
theorem scatter_map (f : α → β) (order : List ℕ) (entries : List α) :
    scatter order (entries.map f)=(scatter order entries).map f := by
  rw [scatter,List.zip_map_right]
  exact foldl_set_map f _ entries

/-- Writing the entries of a row to their own places gives the row. -/
theorem foldl_set_eq {target : List α} (writes : List (ℕ×α))
    (hw : ∀ write∈writes, target[write.1]?=some write.2) : ∀ start : List α,
    start.length=target.length →
    (∀ index<target.length, start[index]?=target[index]? ∨ ∃ entry, (index,entry)∈writes) →
    writes.foldl (fun row pair => row.set pair.1 pair.2) start=target := by
  induction writes with
  | nil =>
    intro start hl hs
    change start=target
    refine List.ext_getElem? fun index => ?_
    by_cases hi : index<target.length
    · exact (hs index hi).resolve_right (fun ⟨_,h⟩ => List.not_mem_nil h)
    · rw [List.getElem?_eq_none (by omega),List.getElem?_eq_none (by omega)]
  | cons write writes ih =>
    intro start hl hs
    rw [List.foldl_cons]
    refine ih (fun other ho => hw other (List.mem_cons_of_mem _ ho)) _
      ((List.length_set).trans hl) ?_
    intro index hi
    by_cases he : write.1=index
    · subst he
      left
      rw [List.getElem?_set_self (hl.symm ▸ hi),hw write List.mem_cons_self]
    · rw [List.getElem?_set_ne he]
      refine (hs index hi).imp_right ?_
      rintro ⟨entry,hm⟩
      rcases List.mem_cons.mp hm with rfl | hm
      · exact absurd rfl he
      · exact ⟨entry,hm⟩

/-- A sorted row is a rearrangement. -/
theorem sorted_perm (row : List α) (le : α×ℕ → α×ℕ → Bool) :
    ((row.zipIdx.mergeSort le).map Prod.fst).Perm row := by
  refine ((List.mergeSort_perm _ _).map Prod.fst).trans ?_
  rw [List.zipIdx_map_fst]

/-- Sorting a row with its indices and scattering it back gives the row. -/
theorem scatter_sorted (row : List α) (le : α×ℕ → α×ℕ → Bool) :
    scatter ((row.zipIdx.mergeSort le).map Prod.snd)
      ((row.zipIdx.mergeSort le).map Prod.fst)=row := by
  set pairs := row.zipIdx.mergeSort le
  have hz : (pairs.map Prod.snd).zip (pairs.map Prod.fst)=pairs.map Prod.swap := List.zip_map'
  rw [scatter,hz]
  refine foldl_set_eq _ ?_ _ ?_ ?_
  · intro write hw
    obtain ⟨pair,hp,rfl⟩ := List.mem_map.mp hw
    exact List.mem_zipIdx_iff_getElem?.mp (List.mem_mergeSort.mp hp)
  · rw [List.length_map,List.length_mergeSort,List.length_zipIdx]
  · intro index hi
    refine Or.inr ⟨row[index],List.mem_map.mpr ⟨(row[index],index),?_,rfl⟩⟩
    exact List.mem_mergeSort.mpr (List.mem_zipIdx_iff_getElem?.mpr (List.getElem?_eq_getElem hi))

end Scatter

section Mass

variable {K : Type} [Field K] [LinearOrder K] {exp : ℚ → K} {row : List (WithBot ℚ)} {topP : K}

/-- The part of a total that an entry weighs. -/
def share (exp : ℚ → K) (total : K) (entry : WithBot ℚ) : K := weight exp entry/total

omit [LinearOrder K] in
/-- A softmax gives each entry its share. -/
theorem softmaxOf_eq (row : List (WithBot ℚ)) :
    softmaxOf exp row=row.map (share exp (row.map (weight exp)).sum) :=
  List.map_map

omit [LinearOrder K] in
/-- The total does not depend on the order of a row. -/
theorem softmaxOf_perm {row ordered : List (WithBot ℚ)} (h : ordered.Perm row) :
    softmaxOf exp ordered=ordered.map (share exp (row.map (weight exp)).sum) := by
  rw [softmaxOf_eq,(h.map (weight exp)).sum_eq]

omit [LinearOrder K] in
/-- What shares sum to. -/
theorem sum_shares (total : K) (row : List (WithBot ℚ)) :
    (row.map (share exp total)).sum=(row.map (weight exp)).sum/total := by
  rw [div_eq_mul_inv,←List.sum_map_mul_right]
  exact congrArg List.sum (List.map_congr_left fun entry _ => div_eq_mul_inv _ _)

omit [LinearOrder K] in
/-- Sharing out the shares again is sharing out the weights. -/
theorem shares_again {total : K} (h : total≠0) (row : List (WithBot ℚ)) :
    (row.map (share exp total)).map (·/(row.map (share exp total)).sum)=softmaxOf exp row := by
  rw [sum_shares,List.map_map,softmaxOf_eq]
  exact List.map_congr_left fun entry _ => div_div_div_cancel_right₀ h _ _

/-- Every entry is flagged or not. -/
theorem length_beyondMass {K : Type} [Zero K] [Add K] [Sub K] [LT K] [DecidableLT K] (topP : K)
    (mass : List K) :
    (beyondMass topP mass).length=mass.length := by
  rw [beyondMass,List.length_set,List.length_map,List.length_zip,length_cumulative,Nat.min_self]

/-- A masked entry weighs less than any other. -/
theorem weight_strictMono (hm : StrictMono exp) (hp : ∀ logit, 0<exp logit) :
    StrictMono (weight exp) := by
  intro x y h
  cases y with
  | bot => exact absurd h not_lt_bot
  | coe y =>
    cases x with
    | bot => exact hp y
    | coe x => exact hm (WithBot.coe_lt_coe.mp h)

/-- No weight is negative. -/
theorem weight_nonneg (hp : ∀ logit, 0<exp logit) (entry : WithBot ℚ) : 0≤weight exp entry := by
  cases entry with
  | bot => exact le_refl _
  | coe logit => exact (hp logit).le

section Ordered

variable [IsStrictOrderedRing K]

/-- A row that is not masked throughout weighs something. -/
theorem total_pos (hp : ∀ logit, 0<exp logit) (h : ∃ entry∈row, entry≠⊥) :
    0<(row.map (weight exp)).sum := by
  obtain ⟨entry,he,hne⟩ := h
  obtain ⟨logit,rfl⟩ := WithBot.ne_bot_iff_exists.mp hne
  have hnonneg : ∀ w∈row.map (weight exp), 0≤w := by
    intro w hw
    obtain ⟨other,_,rfl⟩ := List.mem_map.mp hw
    exact weight_nonneg hp other
  exact (hp logit).trans_le (List.single_le_sum hnonneg _ (List.mem_map_of_mem he))

/-- Shares are in the order of the entries. -/
theorem share_le_iff {total : K} (hm : StrictMono exp) (hp : ∀ logit, 0<exp logit)
    (ht : 0<total) (x y : WithBot ℚ) : share exp total y ≤ share exp total x↔y≤x := by
  rw [share,share,div_le_div_iff_of_pos_right ht,(weight_strictMono hm hp).le_iff_le]

/-- The sort that `_distribution` does is the one of the logits. -/
theorem sorted_shares {total : K} (hm : StrictMono exp) (hp : ∀ logit, 0<exp logit)
    (ht : 0<total) (row : List (WithBot ℚ)) :
    (row.map (share exp total)).zipIdx.mergeSort (fun x y => decide (y.1≤x.1))=
      (row.zipIdx.mergeSort (fun x y => decide (y.1≤x.1))).map (Prod.map (share exp total) id) := by
  rw [List.zipIdx_map]
  refine (List.map_mergeSort ?_).symm
  intro x _ y _
  exact decide_eq_decide.mpr (share_le_iff hm hp ht x.1 y.1).symm

/-- The filter by mass in the words of `_distribution`. -/
theorem keepTopP_eq {E K : Type} [LE E] [DecidableLE E] [Bot E] [Zero K] [Add K] [Sub K] [LT K]
    [DecidableLT K] (softmax : List E → List K) (topP : K) (row : List E) :
    keepTopP softmax topP row=
      scatter ((row.zipIdx.mergeSort (fun x y => decide (y.1≤x.1))).map Prod.snd)
        (maskedFill ⊥ ((row.zipIdx.mergeSort (fun x y => decide (y.1≤x.1))).map Prod.fst)
          (beyondMass topP (softmax
            ((row.zipIdx.mergeSort (fun x y => decide (y.1≤x.1))).map Prod.fst)))) := rfl

/-- Filtering the logits by mass and taking the softmax is filtering the
probabilities. -/
theorem softmaxOf_keepTopP (hm : StrictMono exp) (hp : ∀ logit, 0<exp logit)
    (hr : ∃ entry∈row, entry≠⊥) :
    softmaxOf exp (keepTopP (softmaxOf exp) topP row)=nucleus topP (softmaxOf exp row) := by
  have ht : 0<(row.map (weight exp)).sum := total_pos hp hr
  set total := (row.map (weight exp)).sum with htotal
  set pairs := row.zipIdx.mergeSort (fun x y => decide (y.1≤x.1)) with hpairs
  set ordered := pairs.map Prod.fst with hordered
  have hperm : ordered.Perm row := sorted_perm row _
  have hmass : softmaxOf exp ordered=ordered.map (share exp total) := softmaxOf_perm hperm
  have hfst : (pairs.map (Prod.map (share exp total) id)).map Prod.fst=
      ordered.map (share exp total) := by
    rw [hordered,List.map_map,List.map_map]
    rfl
  have hsnd : (pairs.map (Prod.map (share exp total) id)).map Prod.snd=
      pairs.map Prod.snd := by
    rw [List.map_map]
    rfl
  have hbot : share exp total ⊥=0 := zero_div total
  have hfiltered : (keepTopP (softmaxOf exp) topP row).map (share exp total)=
      scatter (pairs.map Prod.snd) (maskedFill 0 (ordered.map (share exp total))
        (beyondMass topP (ordered.map (share exp total)))) := by
    rw [keepTopP_eq,←hpairs,←hordered,hmass,←scatter_map,←maskedFill_map,hbot]
  rw [softmaxOf_eq row,←htotal,nucleus]
  simp only [sorted_shares hm hp ht row,←hpairs,hfst,hsnd,←hfiltered]
  exact (shares_again ht.ne' _).symm

/-- Running sums of a mass stay within its total. -/
theorem prefix_le {bound : K} {mass : List K} : ∀ {total : K}, (∀ x∈mass, 0≤x) →
    total+mass.sum≤bound → ∀ pair∈(cumulative total mass).zip mass, pair.1-pair.2≤bound := by
  induction mass with
  | nil => exact fun _ _ _ h => absurd h List.not_mem_nil
  | cons x mass ih =>
    intro total hn hb pair hp
    rw [List.sum_cons] at hb
    have hx := hn x List.mem_cons_self
    have hrest : ∀ y∈mass, 0≤y := fun y hy => hn y (List.mem_cons_of_mem _ hy)
    have hsum : 0 ≤ mass.sum := List.sum_nonneg hrest
    rw [cumulative,List.zip_cons_cons] at hp
    rcases List.mem_cons.mp hp with rfl | hp
    · change total+x-x≤bound
      linarith
    · exact ih hrest (by linarith) pair hp

/-- A mass threshold of one lets everything through. -/
theorem keepTopP_one (hp : ∀ logit, 0<exp logit) (hr : ∃ entry∈row, entry≠⊥) :
    keepTopP (softmaxOf exp) 1 row=row := by
  have ht : 0<(row.map (weight exp)).sum := total_pos hp hr
  set total := (row.map (weight exp)).sum with htotal
  set pairs := row.zipIdx.mergeSort (fun x y => decide (y.1≤x.1)) with hpairs
  have hperm : (pairs.map Prod.fst).Perm row := sorted_perm row _
  have hmass : softmaxOf exp (pairs.map Prod.fst)=(pairs.map Prod.fst).map (share exp total) :=
    softmaxOf_perm hperm
  have hsum : ((pairs.map Prod.fst).map (share exp total)).sum=1 := by
    rw [sum_shares,(hperm.map (weight exp)).sum_eq,←htotal,div_self ht.ne']
  have hnone : ∀ flag∈beyondMass (1 : K) (softmaxOf exp (pairs.map Prod.fst)),
      flag=false := by
    intro flag hf
    rcases List.mem_or_eq_of_mem_set hf with hf | rfl
    · obtain ⟨pair,hpair,rfl⟩ := List.mem_map.mp hf
      rw [hmass] at hpair
      refine decide_eq_false (not_lt.mpr ?_)
      refine prefix_le ?_ (by rw [zero_add,hsum]) pair hpair
      intro x hx
      obtain ⟨entry,_,rfl⟩ := List.mem_map.mp hx
      exact div_nonneg (weight_nonneg hp entry) ht.le
    · rfl
  rw [keepTopP_eq,←hpairs,maskedFill_none ?_ hnone]
  · exact scatter_sorted row _
  · rw [length_beyondMass,hmass]
    exact (List.length_map _).symm

/-- The filter by mass and the softmax behind it, row by row. The branch is
one for the whole batch, but a row whose threshold is one is not changed
there. -/
theorem filterTopP_rows (hm : StrictMono exp) (hp : ∀ logit, 0<exp logit)
    {topPs : List K} {rows : List (List (WithBot ℚ))} (hl : rows.length=topPs.length)
    (h1 : ∀ topP∈topPs, topP≤1) (hr : ∀ row∈rows, ∃ entry∈row, entry≠⊥) :
    (filterTopP (softmaxOf exp) topPs rows).map (softmaxOf exp)=
      (rows.zip topPs).map (fun pair => if pair.2<1 then
        nucleus pair.2 (softmaxOf exp pair.1) else softmaxOf exp pair.1) := by
  rw [filterTopP]
  by_cases hany : topPs.any (fun topP => decide (topP<1))=true
  · rw [if_pos hany,List.map_map]
    refine List.map_congr_left ?_
    intro pair hpair
    obtain ⟨hrow,htop⟩ := List.of_mem_zip hpair
    by_cases hlt : pair.2<1
    · rw [if_pos hlt]
      exact softmaxOf_keepTopP hm hp (hr _ hrow)
    · have hone : pair.2=1 := le_antisymm (h1 _ htop) (not_lt.mp hlt)
      rw [if_neg hlt,Function.comp,hone,keepTopP_one hp (hr _ hrow)]
  · have hall : ∀ pair∈rows.zip topPs, (if pair.2<1 then
        nucleus pair.2 (softmaxOf exp pair.1) else softmaxOf exp pair.1)=
          softmaxOf exp pair.1 := by
      intro pair hpair
      refine if_neg fun hlt => hany ?_
      exact List.any_eq_true.mpr ⟨pair.2,(List.of_mem_zip hpair).2,decide_eq_true hlt⟩
    rw [if_neg hany,List.map_congr_left hall]
    conv_lhs => rw [←List.map_fst_zip hl.le]
    exact List.map_map

end Ordered

end Mass

end CudaForge.RowDistributions
