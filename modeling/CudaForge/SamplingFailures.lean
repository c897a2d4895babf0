import CudaForge.BinaryFloats
import CudaForge.RowDistributions

/-!
# When sampling a batch goes through

`_sample` as floats compute it: temperatures and masses become `float32`,
quotients may be infinite, and the softmax of a row that has no largest number
is no number, which `multinomial` refuses. It also looks for as many of the
largest logits as the largest `top_k` of the batch asks for, without the bound
that `_distribution` puts on it. The softmax is given, with what is documented of
it, and so is how many categories `multinomial` takes.
-/

namespace CudaForge.SamplingFailures

open BinaryFloats PythonBuiltins GenerationSettings BatchTensors TokenSampling RowDistributions

/-- A `float32`. -/
abbrev Single := FloatNumber binary32

/-- Settings whose temperature is a Python float. -/
abbrev Settings := GenerationConfig (FloatNumber binary64)

/-- Rows of logits over one vocabulary, each with its settings. -/
structure Batch where
  /-- A row of logits and its settings. -/
  items : List (List ℚ×Settings)
  /-- How many tokens there are. -/
  vocabulary : ℕ
  uniform : ∀ item∈items, item.1.length=vocabulary
  /-- No logit is infinite. -/
  finite : ∀ item∈items, ∀ logit∈item.1, |logit|<binary32.threshold

/-- `max(setting.temperature, 0.0)`, as an entry of a tensor. -/
def single (setting : Settings) : Single :=
  (if setting.temperature<0 then 0 else setting.temperature).convert binary32

/-- What the row is divided by. -/
def divisor (setting : Settings) : Single := if single setting=0 then 1 else single setting

namespace Batch

/-- The rows. -/
def logits (batch : Batch) : List (List ℚ) := batch.items.map Prod.fst

/-- The settings. -/
def settings (batch : Batch) : List Settings := batch.items.map Prod.snd

/-- Each row divided by its temperature. -/
def scaled (batch : Batch) : List (List Single) :=
  (batch.logits.zip (batch.settings.map divisor)).map
    (fun pair => pair.1.map (fun logit => .finite logit/pair.2))

end Batch

/-- The probabilities that `_sample` hands to `multinomial`. -/
def probabilities (softmax : List Single → List Single) (batch : Batch) :
    Except PyError (List (List Single)) := do
  let scaled ← filterTopK (batch.settings.map (fun setting => setting.topK)) batch.scaled
  .ok ((filterTopP softmax
    (batch.settings.map (fun setting => FloatNumber.round binary32 setting.topP)) scaled).map
      softmax)

/-- A number that is not negative. -/
def isWeight : Single → Bool
  | .finite x => decide (0≤x)
  | _ => false

/-- `multinomial` of one draw a row. -/
def multinomial (categories : ℕ) (draw : Draw Single) (width : ℕ) (rows : List (List Single)) :
    Except PyError (List ℕ) :=
  if width=0 then
    .error (.runtimeError
      "cannot sample n_sample > prob_dist.size(-1) samples without replacement")
  else if categories<width then
    .error (.runtimeError "number of categories cannot exceed 2^24")
  else if rows.any (fun row => row.any (fun p => !isWeight p)) then
    .error (.runtimeError "probability tensor contains either inf, nan or element < 0")
  else if rows.any (fun row => row.all (fun p => decide (p=0))) then
    .error (.runtimeError "invalid multinomial distribution (sum of probabilities <= 0)")
  else .ok (rows.mapIdx draw)

/-- `_sample`: one token per row. -/
def sampleSingle (softmax : List Single → List Single) (categories : ℕ) (draw : Draw Single)
    (batch : Batch) : Except PyError (List ℕ) := do
  let greedyRows := batch.settings.map (fun setting => decide (single setting=0))
  let rows ← probabilities softmax batch
  let sampled ← multinomial categories draw batch.vocabulary rows
  let best ← batch.logits.mapM argmax
  .ok (((greedyRows.zip best).zip sampled).map
    (fun row => if row.1.1 then row.1.2 else row.2))

/-- The batch is sampled, whatever is drawn, and every row has a candidate of
positive probability. -/
structure Served (softmax : List Single → List Single) (categories : ℕ) (batch : Batch) :
    Prop where
  /-- No exception is raised, and every row gets a token. -/
  sampled : ∀ draw : Draw Single, ∃ tokens,
    sampleSingle softmax categories draw batch=.ok tokens ∧ tokens.length=batch.items.length
  /-- Every row has a candidate. -/
  candidates : ∃ rows, probabilities softmax batch=.ok rows ∧
    rows.length=batch.items.length ∧ ∀ row∈rows, ∃ p∈row, 0<p

/-- A row with a largest number: nothing above all numbers in it, and something
that is not masked. -/
structure Normal (row : List Single) : Prop where
  /-- No entry is infinite or no number. -/
  bounded : ∀ entry∈row, ¬(entry=.nan ∨ entry=.posInf)
  /-- Some entry is not masked. -/
  unmasked : ∃ entry∈row, entry≠⊥

/-- What is documented of a softmax: the exponentials of the entries over their
sum. Where the largest exponential is infinite or all are zero, that is no
number. -/
structure IsSoftmax (softmax : List Single → List Single) : Prop where
  /-- Every entry gets a share. -/
  length : ∀ row, (softmax row).length=row.length
  /-- Infinity over infinity, or zero over zero. -/
  undefined : ∀ row, ¬Normal row → ∀ p∈softmax row, p=.nan
  /-- Shares lie between zero and one. -/
  range : ∀ row, Normal row → ∀ p∈softmax row, isWeight p=true
  /-- They sum to one. -/
  positive : ∀ row, Normal row → ∃ p∈softmax row, 0<p

/-- Divided by the temperature, the largest logit stays finite. -/
def StaysFinite (logits : List ℚ) : Single → Prop
  | .nan => False
  | .finite t => t=0 ∨ ∃ largest∈logits, (∀ logit∈logits, logit≤largest) ∧
      |largest|<binary32.threshold*t
  | _ => True

variable {softmax : List Single → List Single} {categories : ℕ} {batch : Batch}
variable {row : List Single} {topP : Single}

section Kept

/-- What is written elsewhere does not touch an entry. -/
theorem foldl_set_elsewhere {α : Type} {index : ℕ} (writes : List (ℕ×α))
    (h : ∀ write∈writes, write.1≠index) : ∀ start : List α,
    (writes.foldl (fun row pair => row.set pair.1 pair.2) start)[index]?=start[index]? := by
  induction writes with
  | nil => exact fun _ => rfl
  | cons write writes ih =>
    intro start
    rw [List.foldl_cons,ih (fun other ho => h other (List.mem_cons_of_mem _ ho)),
      List.getElem?_set_ne (h write List.mem_cons_self)]

/-- The first of the entries scattered to different places is in the result. -/
theorem scatter_first {α : Type} {first : α} {entries : List α} {index : ℕ} {order : List ℕ}
    (hd : (index::order).Nodup) (hi : index<(first::entries).length) :
    first∈scatter (index::order) (first::entries) := by
  have hkept : ∀ write∈order.zip entries, write.1≠index := by
    intro write hw he
    exact (List.nodup_cons.mp hd).1 (he ▸ (List.of_mem_zip hw).1)
  refine List.mem_of_getElem? (i:=index) ?_
  rw [scatter,List.zip_cons_cons,List.foldl_cons,foldl_set_elsewhere _ hkept,
    List.getElem?_set_self hi]

/-- Scattered entries are entries. -/
theorem mem_of_scatter {α : Type} {entry : α} {entries : List α} {order : List ℕ}
    (h : entry∈scatter order entries) : entry∈entries := by
  have hgen : ∀ (writes : List (ℕ×α)) (start : List α), (∀ write∈writes, write.2∈entries) →
      (∀ x∈start, x∈entries) →
      ∀ x∈writes.foldl (fun row pair => row.set pair.1 pair.2) start, x∈entries := by
    intro writes
    induction writes with
    | nil => exact fun _ _ hs => hs
    | cons write writes ih =>
      intro start hw hs
      refine ih _ (fun other ho => hw other (List.mem_cons_of_mem _ ho)) ?_
      intro x hx
      rcases List.mem_or_eq_of_mem_set hx with hx|rfl
      · exact hs x hx
      · exact hw write List.mem_cons_self
  exact hgen _ entries (fun write hw => (List.of_mem_zip hw).2) (fun _ hx => hx) entry h

/-- No two entries of a sorted row have the same index. -/
theorem sorted_order_nodup {α : Type} (row : List α) (le : α×ℕ → α×ℕ → Bool) :
    ((row.zipIdx.mergeSort le).map Prod.snd).Nodup := by
  rw [((List.mergeSort_perm row.zipIdx le).map Prod.snd).nodup_iff,List.zipIdx_map_snd]
  exact List.nodup_range'

/-- The first entry of a sorted row is the largest. -/
theorem sorted_first {first : Single×ℕ} {rest : List (Single×ℕ)}
    (hs : row.zipIdx.mergeSort (fun x y => decide (y.1≤x.1))=first::rest) :
    ∀ entry∈row, entry≤first.1 := by
  intro entry he
  have hsorted : (first::rest).Pairwise (fun x y => decide (y.1≤x.1)=true) := by
    rw [←hs]
    refine List.pairwise_mergeSort ?_ ?_ _
    · intro x y z hxy hyz
      exact decide_eq_true
        (FloatNumber.precedes_trans (of_decide_eq_true hyz) (of_decide_eq_true hxy))
    · intro x y
      rw [Bool.or_eq_true,decide_eq_true_iff,decide_eq_true_iff]
      exact FloatNumber.precedes_total _ _
  obtain ⟨index,hi,rfl⟩ := List.getElem_of_mem he
  have hm : (row[index],index)∈first::rest := by
    rw [←hs,List.mem_mergeSort]
    exact List.mem_zipIdx_iff_getElem?.mpr (List.getElem?_eq_getElem hi)
  rcases List.mem_cons.mp hm with heq | hrest
  · rw [←heq]
    exact (FloatNumber.precedes_total _ _).elim id id
  · exact of_decide_eq_true ((List.pairwise_cons.mp hsorted).1 _ hrest)

end Kept

section Rows

/-- A row that is not empty has a largest entry. -/
theorem exists_largest (h : row≠[]) : ∃ largest∈row, ∀ entry∈row, entry≤largest := by
  induction row with
  | nil => exact absurd rfl h
  | cons first rest ih =>
    have hrefl : first≤first := (FloatNumber.precedes_total _ _).elim id id
    by_cases hr : rest=[]
    · refine ⟨first,List.mem_cons_self,?_⟩
      intro entry he
      rw [hr,List.mem_singleton] at he
      exact he ▸ hrefl
    · obtain ⟨largest,hm,hle⟩ := ih hr
      rcases FloatNumber.precedes_total first largest with hf|hf
      · refine ⟨largest,List.mem_cons_of_mem _ hm,?_⟩
        intro entry he
        rcases List.mem_cons.mp he with rfl|he
        · exact hf
        · exact hle entry he
      · refine ⟨first,List.mem_cons_self,?_⟩
        intro entry he
        rcases List.mem_cons.mp he with rfl|he
        · exact hrefl
        · exact FloatNumber.precedes_trans (hle entry he) hf

/-- Only masked entries come before masked ones. -/
theorem eq_bot_of_precedes {x : Single} (h : x≤⊥) : x=⊥ := by
  cases x
  case negInf => rfl
  all_goals exact absurd h Bool.false_ne_true

/-- Masked entries come first. -/
theorem bot_precedes (x : Single) : ⊥≤x := by
  cases x <;> rfl

/-- The largest entry of a normal row is not masked. -/
theorem Normal.largest (h : Normal row) :
    ∃ largest∈row, largest≠⊥ ∧ ∀ entry∈row, entry≤largest := by
  obtain ⟨entry,he,hne⟩ := h.unmasked
  obtain ⟨largest,hm,hle⟩ := exists_largest (List.ne_nil_of_mem he)
  exact ⟨largest,hm,fun hb => hne (eq_bot_of_precedes (hb ▸ hle entry he)),hle⟩

/-- Whether a row is normal does not depend on its order. -/
theorem Normal.perm {other : List Single} (hp : row.Perm other) (h : Normal row) :
    Normal other := by
  obtain ⟨entry,he,hne⟩ := h.unmasked
  exact ⟨fun entry he => h.bounded entry (hp.mem_iff.mpr he),entry,hp.mem_iff.mp he,hne⟩

/-- Masked entries are bounded. -/
theorem bot_bounded : ¬((⊥ : Single)=.nan ∨ (⊥ : Single)=.posInf) := by decide

/-- The filter by rank keeps what makes a row normal, and what keeps it from
being so. -/
theorem normal_keepTopK (limit k : ℕ) : Normal (keepTopK limit k row) ↔ Normal row := by
  rw [keepTopK]
  set threshold := ((descending row).take limit)[min (max k 1-1) (limit-1)]?.getD ⊥ with ht
  constructor
  · intro h
    refine ⟨?_,?_⟩
    · intro entry he hbad
      refine h.bounded entry (List.mem_map.mpr ⟨entry,he,if_neg ?_⟩) hbad
      exact fun hlt => FloatNumber.not_lt_of_abnormal hbad _ hlt.1
    · obtain ⟨entry,he,hne⟩ := h.unmasked
      obtain ⟨before,hb,rfl⟩ := List.mem_map.mp he
      refine ⟨before,hb,?_⟩
      intro hbot
      rw [hbot,ite_self] at hne
      exact hne rfl
  · intro h
    refine ⟨?_,?_⟩
    · intro entry he
      obtain ⟨before,hb,rfl⟩ := List.mem_map.mp he
      split
      · exact bot_bounded
      · exact h.bounded before hb
    · obtain ⟨largest,hm,hne,hle⟩ := h.largest
      have hthreshold : threshold≤largest := by
        cases hg : ((descending row).take limit)[min (max k 1-1) (limit-1)]? with
        | none =>
          rw [ht,hg]
          exact bot_precedes _
        | some entry =>
          rw [ht,hg]
          exact hle _ (List.mem_mergeSort.mp
            (List.mem_of_mem_take (List.mem_of_getElem? hg)))
      refine ⟨largest,List.mem_map.mpr ⟨largest,hm,if_neg ?_⟩,hne⟩
      exact fun hlt => FloatNumber.not_lt_of_precedes hthreshold hlt.1

/-- The sorted entries of a row. -/
theorem ordered_perm :
    ((row.zipIdx.mergeSort (fun x y => decide (y.1≤x.1))).map Prod.fst).Perm row :=
  sorted_perm row _

/-- A row that is not normal passes the filter by mass as it is: no comparison
with what is no number succeeds. -/
theorem keepTopP_abnormal (hs : IsSoftmax softmax) (h : ¬Normal row) :
    keepTopP softmax topP row=row := by
  have hmass := hs.undefined _ (fun hn => h (hn.perm ordered_perm))
  rw [keepTopP_eq,maskedFill_none ?_ ?_]
  · exact scatter_sorted row _
  · rw [length_beyondMass,hs.length]
  · intro flag hf
    rcases List.mem_or_eq_of_mem_set hf with hf|rfl
    · obtain ⟨pair,hp,rfl⟩ := List.mem_map.mp hf
      refine decide_eq_false ?_
      rw [hmass _ (List.of_mem_zip hp).2,FloatNumber.sub_nan]
      exact FloatNumber.not_lt_nan _
    · rfl

/-- The first flag is never set. -/
theorem beyondMass_first {mass : List Single} (h : mass≠[]) :
    ∃ flags, beyondMass topP mass=false::flags := by
  cases mass with
  | nil => exact absurd rfl h
  | cons p mass => exact ⟨_,rfl⟩

/-- A normal row stays normal: the filter by mass keeps its largest entry. -/
theorem keepTopP_normal (hs : IsSoftmax softmax) (h : Normal row) :
    Normal (keepTopP softmax topP row) := by
  rw [keepTopP_eq]
  refine ⟨?_,?_⟩
  · intro entry he
    obtain ⟨pair,hp,rfl⟩ := List.mem_map.mp (mem_of_scatter he)
    split
    · exact bot_bounded
    · exact h.bounded _ (ordered_perm.mem_iff.mp (List.of_mem_zip hp).1)
  · obtain ⟨largest,hm,hne,hle⟩ := h.largest
    have hd := sorted_order_nodup row (fun x y => decide (y.1≤x.1))
    have hlen : (row.zipIdx.mergeSort (fun x y => decide (y.1≤x.1))).length=row.length := by
      rw [List.length_mergeSort,List.length_zipIdx]
    have hbound : ∀ pair∈row.zipIdx.mergeSort (fun x y => decide (y.1≤x.1)),
        pair.2<row.length := by
      intro pair hp
      have hx := List.mem_zipIdx_iff_getElem?.mp (List.mem_mergeSort.mp hp)
      exact (List.getElem?_eq_some_iff.mp hx).1
    cases hsort : row.zipIdx.mergeSort (fun x y => decide (y.1≤x.1)) with
    | nil =>
      rw [hsort,List.length_nil] at hlen
      rw [List.length_eq_zero_iff.mp hlen.symm] at hm
      exact absurd hm List.not_mem_nil
    | cons first rest =>
      rw [hsort] at hd hlen hbound
      have hmass : (softmax ((first::rest).map Prod.fst)).length=(first::rest).length := by
        rw [hs.length,List.length_map]
      obtain ⟨flags,hflags⟩ := @beyondMass_first topP _
        (List.length_pos_iff.mp (hmass.trans_gt (Nat.succ_pos _)))
      refine ⟨first.1,?_,fun hb => hne (eq_bot_of_precedes (hb ▸ sorted_first hsort largest hm))⟩
      have hkept : (maskedFill ⊥ ((first::rest).map Prod.fst) (beyondMass topP
          (softmax ((first::rest).map Prod.fst)))).length=(first::rest).length := by
        rw [maskedFill,List.length_map,List.length_zip,length_beyondMass,hmass,
          List.length_map,Nat.min_self]
      rw [hflags] at hkept ⊢
      refine scatter_first hd ?_
      exact (hbound first List.mem_cons_self).trans_eq (hlen.symm.trans hkept.symm)

/-- So the filter by mass does not matter to it either. -/
theorem normal_keepTopP (hs : IsSoftmax softmax) :
    Normal (keepTopP softmax topP row) ↔ Normal row := by
  constructor
  · intro h
    by_contra hn
    rw [keepTopP_abnormal hs hn] at h
    exact hn h
  · exact keepTopP_normal hs

end Rows

section Scaling

/-- There are numbers that are not too large. -/
theorem threshold_pos : 0<binary32.threshold := by decide +kernel

/-- A temperature in single precision: no number, infinite or not negative. -/
theorem single_cases (setting : Settings) : single setting=.nan ∨ single setting=.posInf ∨
    ∃ t, single setting=.finite t ∧ 0≤t := by
  have hneg := setting.temperature_nonneg
  rw [single,if_neg hneg]
  cases ht : setting.temperature with
  | nan => exact Or.inl rfl
  | posInf => exact Or.inr (Or.inl rfl)
  | negInf =>
    rw [ht] at hneg
    exact absurd rfl hneg
  | finite x =>
    rw [ht] at hneg
    have hx : 0≤x := not_lt.mp (fun hlt => hneg (FloatNumber.finite_lt.mpr hlt))
    have hlow : ¬x≤ -binary32.threshold := by
      have hpos := threshold_pos
      linarith
    by_cases hhigh : binary32.threshold≤x
    · exact Or.inr (Or.inl (if_pos hhigh))
    · refine Or.inr (Or.inr ⟨binary32.nearest x,?_,nearest_nonneg binary32 hx⟩)
      rw [FloatNumber.convert,FloatNumber.round,if_neg hhigh,if_neg hlow]

/-- When a rounded number is normal as an entry. -/
theorem round_entry (x : ℚ) :
    (¬(FloatNumber.round binary32 x=.nan ∨ FloatNumber.round binary32 x=.posInf) ↔
      x<binary32.threshold) ∧
        (FloatNumber.round binary32 x≠⊥ ↔ -binary32.threshold<x) := by
  have hpos := threshold_pos
  rw [FloatNumber.round]
  split_ifs with hhigh hlow
  · exact ⟨iff_of_false (fun h => h (Or.inr rfl)) hhigh.not_gt,
      iff_of_true (by decide) (by linarith)⟩
  · exact ⟨iff_of_true (by decide) (by linarith),iff_of_false (fun h => h rfl) hlow.not_gt⟩
  · refine ⟨iff_of_true ?_ (not_le.mp hhigh),iff_of_true ?_ (not_le.mp hlow)⟩
    · rintro (h|h) <;> exact nomatch h
    · change FloatNumber.finite (binary32.nearest x)≠FloatNumber.negInf
      exact fun h => nomatch h

/-- A row of numbers divided by a positive one is normal exactly when the largest
stays finite. -/
theorem normal_divided {logits : List ℚ} (hne : logits≠[]) {t : ℚ} (ht : 0<t) :
    Normal (logits.map (fun logit => FloatNumber.round binary32 (logit/t))) ↔
      ∃ largest∈logits, (∀ logit∈logits, logit≤largest) ∧ |largest|<binary32.threshold*t := by
  constructor
  · intro h
    have hl := List.length_pos_iff.mpr hne
    refine ⟨logits.maximum_of_length_pos hl,List.maximum_of_length_pos_mem hl,
      fun logit hm => List.le_maximum_of_length_pos_of_mem hm hl,?_⟩
    have hhigh := (round_entry _).1.mp
      (h.bounded _ (List.mem_map_of_mem (List.maximum_of_length_pos_mem hl)))
    obtain ⟨entry,he,hne⟩ := h.unmasked
    obtain ⟨logit,hm,rfl⟩ := List.mem_map.mp he
    have hlow := (round_entry _).2.mp hne
    rw [lt_div_iff₀ ht] at hlow
    rw [div_lt_iff₀ ht] at hhigh
    have hle := List.le_maximum_of_length_pos_of_mem hm hl
    exact abs_lt.mpr ⟨by linarith,hhigh⟩
  · rintro ⟨largest,hm,hle,habs⟩
    obtain ⟨hlow,hhigh⟩ := abs_lt.mp habs
    refine ⟨?_,_,List.mem_map_of_mem hm,(round_entry _).2.mpr ?_⟩
    · intro entry he
      obtain ⟨logit,hl,rfl⟩ := List.mem_map.mp he
      refine (round_entry _).1.mpr ?_
      rw [div_lt_iff₀ ht]
      exact (hle logit hl).trans_lt hhigh
    · rw [lt_div_iff₀ ht]
      linarith

/-- The scaled row of an item is normal exactly when its largest logit stays
finite. -/
theorem normal_scaled {item : List ℚ×Settings} (hi : item∈batch.items) (hne : item.1≠[]) :
    Normal (item.1.map (fun logit => FloatNumber.finite logit/divisor item.2)) ↔
      StaysFinite item.1 (single item.2) := by
  obtain ⟨first,hfirst⟩ := List.exists_mem_of_ne_nil _ hne
  rcases single_cases item.2 with hs|hs|⟨t,hs,ht⟩
  · have hd : divisor item.2=.nan := by rw [divisor,hs,if_neg (by decide)]
    rw [hs,hd]
    exact iff_of_false (fun h => h.bounded .nan (List.mem_map.mpr ⟨first,hfirst,rfl⟩)
      (Or.inl rfl)) id
  · have hd : divisor item.2=.posInf := by rw [divisor,hs,if_neg (by decide)]
    rw [hs,hd]
    have hzero : ¬((0 : Single)=.nan ∨ (0 : Single)=.posInf) := by decide
    refine iff_of_true ⟨?_,0,List.mem_map.mpr ⟨first,hfirst,rfl⟩,by decide⟩ trivial
    intro entry he
    obtain ⟨_,_,rfl⟩ := List.mem_map.mp he
    exact hzero
  · have hquot : ∀ v : ℚ, v≠0 → item.1.map
        (fun logit => FloatNumber.finite logit/(FloatNumber.finite v : Single))=
          item.1.map (fun logit => FloatNumber.round binary32 (logit/v)) := by
      intro v hv
      exact List.map_congr_left (fun logit _ => if_neg hv)
    by_cases hz : t=0
    · have hd : divisor item.2=.finite 1 := by
        rw [divisor,hs,hz]
        rfl
      rw [hs,hd,hquot 1 one_ne_zero]
      refine iff_of_true ((normal_divided hne one_pos).mpr ?_) (Or.inl hz)
      have hl := List.length_pos_iff.mpr hne
      refine ⟨_,List.maximum_of_length_pos_mem hl,
        fun logit hm => List.le_maximum_of_length_pos_of_mem hm hl,?_⟩
      rw [mul_one]
      exact batch.finite item hi _ (List.maximum_of_length_pos_mem hl)
    · have hd : divisor item.2=.finite t := by
        rw [divisor,hs]
        exact if_neg (fun h => hz (FloatNumber.finite.inj h))
      rw [hs,hd,hquot t hz,normal_divided hne (lt_of_le_of_ne ht (Ne.symm hz))]
      exact (or_iff_right hz).symm

end Scaling

section Batches

/-- A filter that works row by row and does not matter to some property does not
matter to whether all rows have it. -/
theorem forall_map_zip {κ : Type} {P : List Single → Prop} {rows : List (List Single)}
    {ks : List κ} (f : κ → List Single → List Single) (hl : rows.length=ks.length)
    (hf : ∀ k row, P (f k row) ↔ P row) :
    (∀ row∈(rows.zip ks).map (fun pair => f pair.2 pair.1), P row) ↔ ∀ row∈rows, P row := by
  conv_rhs => rw [←List.map_fst_zip hl.le]
  rw [List.forall_mem_map,List.forall_mem_map]
  exact forall₂_congr (fun pair _ => hf pair.2 pair.1)

/-- The filter by mass leaves all rows normal or not all. -/
theorem normal_filterTopP (hs : IsSoftmax softmax) {topPs : List Single}
    {rows : List (List Single)} (hl : rows.length=topPs.length) :
    (∀ row∈filterTopP softmax topPs rows, Normal row) ↔ ∀ row∈rows, Normal row := by
  rw [filterTopP]
  split
  · exact forall_map_zip (keepTopP softmax) hl (fun _ _ => normal_keepTopP hs)
  · exact Iff.rfl

/-- The scaled rows, item by item. -/
theorem scaled_eq : batch.scaled=batch.items.map
    (fun item => item.1.map (fun logit => FloatNumber.finite logit/divisor item.2)) := by
  rw [Batch.scaled,Batch.logits,Batch.settings,List.map_map,List.zip_map',List.map_map]
  rfl

/-- A scaled row is as long as the vocabulary. -/
theorem length_scaled_row (h : row∈batch.scaled) : row.length=batch.vocabulary := by
  rw [scaled_eq] at h
  obtain ⟨item,hi,rfl⟩ := List.mem_map.mp h
  rw [List.length_map]
  exact batch.uniform item hi

/-- A row that asks for more tokens than there are fails the batch. -/
theorem filterTopK_fails {item : List ℚ×Settings} (hi : item∈batch.items)
    (hk : batch.vocabulary < item.2.topK) :
    filterTopK (batch.settings.map (fun setting => setting.topK)) batch.scaled=
      .error (.runtimeError "selected index k out of range") := by
  have hm : item.2.topK∈batch.settings.map (fun setting => setting.topK) :=
    List.mem_map.mpr ⟨_,List.mem_map_of_mem hi,rfl⟩
  have hany : (batch.settings.map (fun setting => setting.topK)).any
      (fun k => decide (0<k))=true :=
    List.any_eq_true.mpr ⟨_,hm,decide_eq_true ((Nat.zero_le _).trans_lt hk)⟩
  have hrow : item.1.map (fun logit => FloatNumber.finite logit/divisor item.2)∈batch.scaled := by
    rw [scaled_eq]
    exact List.mem_map.mpr ⟨item,hi,rfl⟩
  have hlimit : item.2.topK≤(batch.settings.map (fun setting => setting.topK)).foldl max 0 :=
    le_foldl_max (Or.inr hm)
  have hshort : batch.scaled.any (fun row => decide
      (row.length<(batch.settings.map (fun setting => setting.topK)).foldl max 0))=true := by
    refine List.any_eq_true.mpr ⟨_,hrow,decide_eq_true ?_⟩
    rw [length_scaled_row hrow]
    omega
  rw [filterTopK,if_pos hany]
  exact if_pos hshort

/-- When no row does, the filtered rows are as many as the items, and all of them
are normal or not all, like the scaled ones. -/
theorem filtered (hs : IsSoftmax softmax)
    (hk : ∀ item∈batch.items, item.2.topK≤batch.vocabulary) :
    ∃ rows : List (List Single), probabilities softmax batch=.ok (rows.map softmax) ∧
      rows.length=batch.items.length ∧
        ((∀ row∈rows, Normal row) ↔ ∀ row∈batch.scaled, Normal row) := by
  have hfit : ∀ k∈batch.settings.map (fun setting => setting.topK),
      ∀ row∈batch.scaled, k≤row.length := by
    intro k hm row hr
    obtain ⟨setting,hset,rfl⟩ := List.mem_map.mp hm
    obtain ⟨item,hi,rfl⟩ := List.mem_map.mp hset
    exact (hk item hi).trans_eq (length_scaled_row hr).symm
  have hlen : batch.scaled.length=(batch.settings.map (fun setting => setting.topK)).length := by
    rw [scaled_eq,Batch.settings,List.length_map,List.length_map,List.length_map]
  obtain ⟨kept,hkept,hcount⟩ := filterTopK_ok _ _ hlen hfit
  have hmasses : kept.length=(batch.settings.map
      (fun setting => FloatNumber.round binary32 setting.topP)).length := by
    rw [hcount,hlen,List.length_map,List.length_map]
  refine ⟨_,by rw [probabilities,hkept]; rfl,?_,?_⟩
  · rw [length_filterTopP hmasses,hcount,scaled_eq,List.length_map]
  · rw [normal_filterTopP hs hmasses]
    have heq := Except.ok.inj (hkept.symm.trans (filterTopK_eq hfit))
    rw [heq]
    split
    · exact forall_map_zip (fun k row => keepTopK _ k row) hlen (fun k _ => normal_keepTopK _ k)
    · exact Iff.rfl

/-- The scaled rows are normal exactly when every largest logit stays finite. -/
theorem scaled_normal_iff (hv : 0<batch.vocabulary) :
    (∀ row∈batch.scaled, Normal row) ↔
      ∀ item∈batch.items, StaysFinite item.1 (single item.2) := by
  rw [scaled_eq,List.forall_mem_map]
  refine forall₂_congr (fun item hi => normal_scaled hi ?_)
  rw [←List.length_pos_iff,batch.uniform item hi]
  exact hv

/-- Something is drawn when there are not too many categories and every row is a
distribution. -/
theorem multinomial_ok {rows : List (List Single)} {width : ℕ} (draw : Draw Single)
    (hw : 0<width) (hc : width≤categories) (hweight : ∀ row∈rows, ∀ p∈row, isWeight p=true)
    (hpos : ∀ row∈rows, ∃ p∈row, 0<p) :
    multinomial categories draw width rows=.ok (rows.mapIdx draw) := by
  have hvalid : ¬rows.any (fun row => row.any (fun p => !isWeight p))=true := by
    intro h
    obtain ⟨row,hr,hbad⟩ := List.any_eq_true.mp h
    obtain ⟨p,hp,hn⟩ := List.any_eq_true.mp hbad
    rw [hweight row hr p hp] at hn
    exact Bool.false_ne_true hn
  have hsum : ¬rows.any (fun row => row.all (fun p => decide (p=0)))=true := by
    intro h
    obtain ⟨row,hr,hzero⟩ := List.any_eq_true.mp h
    obtain ⟨p,hp,hlt⟩ := hpos row hr
    rw [of_decide_eq_true (List.all_eq_true.mp hzero p hp)] at hlt
    exact absurd hlt Bool.false_ne_true
  rw [multinomial,if_neg (by omega),if_neg (by omega),if_neg hvalid,if_neg hsum]

end Batches

section Peaks

/-- A decision on whether a row is normal. -/
instance (row : List Single) : Decidable (Normal row) :=
  decidable_of_iff ((∀ entry∈row, ¬(entry=.nan ∨ entry=.posInf)) ∧ ∃ entry∈row, entry≠⊥)
    ⟨fun h => ⟨h.1,h.2⟩,fun h => ⟨h.bounded,h.unmasked⟩⟩

/-- The softmax of exponentials that vanish below the largest entry. -/
def peaks (row : List Single) : List Single :=
  if Normal row then
    let largest := (descending row).head?.getD ⊥
    row.map (fun entry => if entry=largest then .finite (1/row.count largest) else 0)
  else row.map (fun _ => .nan)

/-- It is what is documented of a softmax. -/
theorem peaks_softmax : IsSoftmax peaks where
  length row := by
    rw [peaks]
    split <;> exact List.length_map _
  undefined row hn p hp := by
    rw [peaks,if_neg hn] at hp
    obtain ⟨_,_,rfl⟩ := List.mem_map.mp hp
    rfl
  range row hn p hp := by
    rw [peaks,if_pos hn] at hp
    obtain ⟨entry,_,rfl⟩ := List.mem_map.mp hp
    split
    · exact decide_eq_true (div_nonneg zero_le_one (Nat.cast_nonneg _))
    · rfl
  positive row hn := by
    have hne : descending row≠[] := by
      obtain ⟨entry,he,_⟩ := hn.unmasked
      exact List.ne_nil_of_mem (List.mem_mergeSort.mpr he)
    have hlargest : (descending row).head?.getD ⊥∈row := by
      rw [List.head?_eq_some_head hne]
      exact List.mem_mergeSort.mp (List.head_mem hne)
    rw [peaks,if_pos hn]
    refine ⟨_,List.mem_map.mpr ⟨_,hlargest,if_pos rfl⟩,FloatNumber.finite_lt.mpr ?_⟩
    exact one_div_pos.mpr (Nat.cast_pos.mpr (List.count_pos_iff.mpr hlargest))

end Peaks

theorem warm_temperature : ¬(1 : FloatNumber binary64)<0 := by decide

/-- Default settings but for the temperature and the number of candidates. -/
def settingsOf (temperature : FloatNumber binary64) (h : ¬temperature<0) (topK : ℕ) : Settings :=
  ⟨64,temperature,1,topK,none,default_tokens,h,default_mass,default_mass_le⟩

/-- A row of default settings beside one with a bound on the candidates. -/
def besideDefault (topK : ℕ) : List (List ℚ×Settings) :=
  [([1,1],settingsOf 1 warm_temperature 0),([2,2],settingsOf 1 warm_temperature topK)]

theorem wide_uniform : ∀ item∈besideDefault 50, item.1.length=2 := by decide

theorem wide_finite :
    ∀ item∈besideDefault 50, ∀ logit∈item.1, |logit|<binary32.threshold := by decide +kernel

theorem narrow_uniform : ∀ item∈besideDefault 2, item.1.length=2 := by decide

theorem narrow_finite :
    ∀ item∈besideDefault 2, ∀ logit∈item.1, |logit|<binary32.threshold := by decide +kernel

/-- A row of default settings beside one that asks for more tokens than the
vocabulary has. -/
def wideBatch : Batch := ⟨besideDefault 50,2,wide_uniform,wide_finite⟩

/-- The same rows, the second of which asks for what there is. -/
def narrowBatch : Batch := ⟨besideDefault 2,2,narrow_uniform,narrow_finite⟩

/-- A temperature of one leaves small logits finite. -/
theorem narrow_staysFinite : ∀ item∈narrowBatch.items,
    item.2.topK≤narrowBatch.vocabulary ∧ StaysFinite item.1 (single item.2) := by
  have hsingle : ∀ k, single (settingsOf 1 warm_temperature k)=.finite 1 := by
    intro k
    change (FloatNumber.convert binary32 (1 : FloatNumber binary64))=.finite 1
    decide +kernel
  intro item hi
  rcases List.mem_pair.mp hi with rfl|rfl
  · exact ⟨by decide,hsingle 0 ▸ Or.inr ⟨1,by decide,by decide,by decide +kernel⟩⟩
  · exact ⟨by decide,hsingle 2 ▸ Or.inr ⟨2,by decide,by decide,by decide +kernel⟩⟩

end CudaForge.SamplingFailures
