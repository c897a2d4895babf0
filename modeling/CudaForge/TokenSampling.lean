import CudaForge.BatchTensors
import CudaForge.GenerationSettings
import CudaForge.PythonBuiltins

/-!
# Picking one token per row

`_sample` of the step-wise runner: each row under its own settings, the
greedy ones by their largest logit. A logit is a rational number, and below
them all stands the value of a masked one. The normalised exponentials and
the draws of the generator are parameters. A batch that is greedy throughout
gets the largest logits, whatever is drawn.
-/

namespace CudaForge.TokenSampling

open PythonBuiltins GenerationSettings BatchTensors

/-- `softmax` over a row, masked entries included; its weights are numbers of
an ordered field. -/
abbrev Softmax (K : Type := ℚ) := List (WithBot ℚ) → List K

/-- What `multinomial` draws: from the row's index and its weights, the
index of an entry. -/
abbrev Draw (K : Type := ℚ) := ℕ → List K → ℕ

variable {K : Type} [Field K] [LinearOrder K]

/-- The first index of the largest entry. -/
def bestToken (row : List ℚ) : ℕ := row.idxOf (row.max?.getD 0)

/-- `argmax` of a row; an empty one has none. -/
def argmax (row : List ℚ) : Except PyError ℕ :=
  if row=[] then
    .error (.indexError "argmax(): Expected reduction dim 1 to have non-zero size.")
  else .ok (bestToken row)

/-- Each row divided by its temperature. -/
def scaledRows (logits : List (List ℚ)) (safe : List ℚ) : List (List (WithBot ℚ)) :=
  (logits.zip safe).map (fun pair => pair.1.map (fun logit => ((logit/pair.2 : ℚ) : WithBot ℚ)))

section Filters

variable {E : Type} [LE E] [DecidableLE E] [LT E] [DecidableLT E] [Bot E]

/-- Largest first. -/
def descending (row : List E) : List E := row.mergeSort (fun x y => decide (y≤x))

/-- A row without what lies below its threshold, the entry of rank `k` among
the largest; a row whose `k` is zero keeps everything. -/
def keepTopK (limit k : ℕ) (row : List E) : List E :=
  let kth := (descending row).take limit
  let threshold := kth[min (max k 1-1) (limit-1)]?.getD ⊥
  row.map (fun entry => if entry<threshold ∧ 0<k then ⊥ else entry)

/-- The rows after the `top_k` filter. No row has more entries than exist. -/
def filterTopK (topK : List ℕ) (scaled : List (List E)) : Except PyError (List (List E)) :=
  if topK.any (fun k => decide (0<k)) then
    let limit := topK.foldl max 0
    if scaled.any (fun row => decide (row.length<limit)) then
      .error (.runtimeError "selected index k out of range")
    else .ok ((scaled.zip topK).map (fun pair => keepTopK limit pair.2 pair.1))
  else .ok scaled

variable {K : Type} [Zero K] [One K] [Add K] [Sub K] [LT K] [DecidableLT K]

/-- A row without the tail beyond the mass threshold, but never without its
largest entry. -/
def keepTopP (softmax : List E → List K) (topP : K) (row : List E) : List E :=
  let pairs := row.zipIdx.mergeSort (fun x y => decide (y.1≤x.1))
  let ordered := pairs.map Prod.fst
  let order := pairs.map Prod.snd
  let mass := softmax ordered
  let drop := (((cumulative 0 mass).zip mass).map
    (fun pair => decide (topP<pair.1-pair.2))).set 0 false
  let kept := (ordered.zip drop).map (fun pair => if pair.2 then ⊥ else pair.1)
  (order.zip kept).foldl (fun row pair => row.set pair.1 pair.2) kept

/-- The rows after the `top_p` filter. -/
def filterTopP (softmax : List E → List K) (topP : List K) (scaled : List (List E)) :
    List (List E) :=
  if topP.any (fun p => decide (p<1)) then
    (scaled.zip topP).map (fun pair => keepTopP softmax pair.2 pair.1)
  else scaled

end Filters

/-- `_sample`: one token per row. -/
def sample (softmax : Softmax K) (draw : Draw K) (logits : List (List ℚ))
    (settings : List GenerationConfig) : Except PyError (List ℕ) := do
  let temperature := settings.map (fun setting => max setting.temperature 0)
  let greedyRows := temperature.map (fun t => decide (t=0))
  let safe := temperature.map (fun t => if t=0 then 1 else t)
  let scaled ← filterTopK (settings.map GenerationConfig.topK) (scaledRows logits safe)
  let filtered := filterTopP softmax (settings.map (fun setting => (setting.topP : K))) scaled
  let sampled := (filtered.map softmax).mapIdx draw
  let best ← logits.mapM argmax
  .ok (((greedyRows.zip best).zip sampled).map
    (fun row => if row.1.1 then row.1.2 else row.2))

variable {softmax : Softmax K} {draw : Draw K} {logits : List (List ℚ)}
variable {settings : List GenerationConfig}

/-- A row that is not empty has a largest entry. -/
theorem argmax_eq {row : List ℚ} (h : row≠[]) : argmax row=.ok (bestToken row) := if_neg h

/-- Scaling adds and drops no row. -/
theorem length_scaledRows {safe : List ℚ} (h : logits.length=safe.length) :
    (scaledRows logits safe).length=logits.length := by
  rw [scaledRows,List.length_map,List.length_zip,←h,Nat.min_self]

/-- The largest of some numbers is within a bound that each is within. -/
theorem foldl_max_le {bound : ℕ} {ks : List ℕ} (h : ∀ k∈ks, k≤bound) :
    ∀ start≤bound, ks.foldl max start≤bound := by
  induction ks with
  | nil => exact fun _ hs => hs
  | cons k ks ih =>
    intro start hs
    exact ih (fun other ho => h other (List.mem_cons_of_mem _ ho)) _
      (max_le hs (h k List.mem_cons_self))

/-- Each of some numbers is within the largest, and so is the start. -/
theorem le_foldl_max {k : ℕ} {ks : List ℕ} :
    ∀ {start : ℕ}, k ≤ start ∨ k∈ks → k≤ks.foldl max start := by
  induction ks with
  | nil =>
    intro start h
    exact h.resolve_right List.not_mem_nil
  | cons other ks ih =>
    intro start h
    refine ih ?_
    rcases h with h | h
    · exact Or.inl (h.trans (le_max_left _ _))
    · rcases List.mem_cons.mp h with rfl | h
      · exact Or.inl (le_max_right _ _)
      · exact Or.inr h

/-- The filter by rank goes through when no row asks for more entries than
there are. -/
theorem filterTopK_eq {E : Type} [LE E] [DecidableLE E] [LT E] [DecidableLT E] [Bot E]
    {topK : List ℕ} {scaled : List (List E)}
    (h : ∀ k∈topK, ∀ row∈scaled, k≤row.length) :
    filterTopK topK scaled=.ok (if topK.any (fun k => decide (0<k)) then
      (scaled.zip topK).map (fun pair => keepTopK (topK.foldl max 0) pair.2 pair.1)
      else scaled) := by
  rw [filterTopK]
  by_cases hany : topK.any (fun k => decide (0<k))=true
  · have hfit : ¬scaled.any (fun row => decide (row.length<topK.foldl max 0))=true := by
      intro hbad
      obtain ⟨row,hr,hlt⟩ := List.any_eq_true.mp hbad
      exact absurd (foldl_max_le (fun k hk => h k hk row hr) 0 (Nat.zero_le _))
        (Nat.not_le.mpr (of_decide_eq_true hlt))
    rw [if_pos hany,if_pos hany]
    exact if_neg hfit
  · rw [if_neg hany,if_neg hany]

/-- The filter by rank adds and drops no row. -/
theorem filterTopK_ok {E : Type} [LE E] [DecidableLE E] [LT E] [DecidableLT E] [Bot E]
    (topK : List ℕ) (scaled : List (List E))
    (hl : scaled.length=topK.length) (h : ∀ k∈topK, ∀ row∈scaled, k≤row.length) :
    ∃ filtered, filterTopK topK scaled=.ok filtered ∧ filtered.length=scaled.length := by
  refine ⟨_,filterTopK_eq h,?_⟩
  split
  · rw [List.length_map,List.length_zip,hl,Nat.min_self]
  · rfl

/-- The filter by mass adds and drops no row. -/
theorem length_filterTopP {E K : Type} [LE E] [DecidableLE E] [Bot E] [Zero K] [One K] [Add K]
    [Sub K] [LT K] [DecidableLT K] {softmax : List E → List K} {topP : List K}
    {scaled : List (List E)} (h : scaled.length=topP.length) :
    (filterTopP softmax topP scaled).length=scaled.length := by
  rw [filterTopP]
  by_cases hany : topP.any (fun p => decide (p<1))=true
  · rw [if_pos hany,List.length_map,List.length_zip,h,Nat.min_self]
  · rw [if_neg hany]

/-- A greedy batch gets its largest logits. -/
theorem sample_greedy (hl : logits.length=settings.length)
    (hg : ∀ setting∈settings, setting.greedy=true) (hr : ∀ row∈logits, row≠[])
    (hk : ∀ setting∈settings, ∀ row∈logits, setting.topK≤row.length) :
    sample softmax draw logits settings=.ok (logits.map bestToken) := by
  set temperature := settings.map (fun setting => max setting.temperature 0) with ht
  set safe := temperature.map (fun t => if t=0 then (1 : ℚ) else t) with hsafe
  have hls : logits.length=safe.length := by
    rw [hsafe,ht,List.length_map,List.length_map,hl]
  have hscaled := length_scaledRows hls
  obtain ⟨filtered,hf,hfl⟩ := filterTopK_ok (settings.map GenerationConfig.topK)
    (scaledRows logits safe) (by rw [hscaled,List.length_map,hl]) (by
      intro k hkm row hrow
      obtain ⟨setting,hs,rfl⟩ := List.mem_map.mp hkm
      obtain ⟨pair,hp,rfl⟩ := List.mem_map.mp hrow
      rw [List.length_map]
      exact hk setting hs _ (List.of_mem_zip hp).1)
  have hgreedy : temperature.map (fun t => decide (t=0))=
      List.replicate logits.length true := by
    rw [ht,List.map_map,hl,List.eq_replicate_iff]
    refine ⟨List.length_map _,?_⟩
    intro flag hflag
    obtain ⟨setting,hs,rfl⟩ := List.mem_map.mp hflag
    have hzero : setting.temperature=0 := of_decide_eq_true (hg setting hs)
    simp only [Function.comp,hzero,max_self,decide_true]
  rw [sample]
  simp only [←ht,←hsafe,hf,hgreedy,mapM_ok (fun row hm => argmax_eq (hr row hm))]
  refine congrArg Except.ok ?_
  refine List.ext_getElem ?_ ?_
  · simp only [List.length_map,List.length_zip,List.length_replicate,List.length_mapIdx,
      length_filterTopP (show filtered.length=(settings.map (fun setting => (setting.topP : K))).length by
        rw [hfl,hscaled,List.length_map,hl]),hfl,hscaled,Nat.min_self]
  · intro index _ _
    simp only [List.getElem_map,List.getElem_zip,List.getElem_replicate,if_true]

end CudaForge.TokenSampling
