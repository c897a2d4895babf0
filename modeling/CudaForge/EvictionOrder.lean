import Mathlib.Data.List.Sort
import Mathlib.Tactic

/-!
# Emptying holders in a fixed order until enough is free

Keys stand in an order and each holds some amount. A line of victims lists
the holders; emptying its head leaves its tail, as it does for the line of
the latest and for that of the largest. Turns that empty the head while too
little is free take the shortest prefix of the line that frees enough. A scan
for the first largest holder finds the head of the line of the largest.
-/

namespace CudaForge.EvictionOrder

variable {κ : Type} {need free : ℕ} {size : κ → ℕ} {evicted : List κ}

/-- The holders of an order, the latest first. -/
def newestFirst (size : κ → ℕ) (order : List κ) : List κ :=
  order.reverse.filter (fun k => decide (0<size k))

/-- The holders of an order, the largest first and equals as they stand. -/
def largestFirst (size : κ → ℕ) (order : List κ) : List κ :=
  (order.filter (fun k => decide (0<size k))).insertionSort (fun a b => size b ≤ size a)

/-- Either line lists the holders of the order. -/
theorem mem_newestFirst {order : List κ} {k : κ} :
    k∈newestFirst size order ↔ k∈order ∧ 0<size k := by
  rw [newestFirst,List.mem_filter,List.mem_reverse,decide_eq_true_iff]

theorem mem_largestFirst {order : List κ} {k : κ} :
    k∈largestFirst size order ↔ k∈order ∧ 0<size k := by
  rw [largestFirst,List.mem_insertionSort,List.mem_filter,decide_eq_true_iff]

/-- Whoever waits behind another in the line of the latest came before him. -/
theorem newestFirst_behind {order front waiting : List κ} {k other : κ}
    (hl : newestFirst size order=front++k::waiting) (hm : other∈waiting) :
    [other,k].Sublist order := by
  have hpair : [k,other].Sublist (newestFirst size order) := by
    rw [hl]
    exact ((List.singleton_sublist.mpr hm).cons_cons k).trans (List.sublist_append_right _ _)
  have hrev : [other,k].reverse.Sublist order.reverse := hpair.trans List.filter_sublist
  exact List.reverse_sublist.mp hrev

/-- Inserting into a list in order, and then filtering. -/
theorem filter_orderedInsert {r : κ → κ → Prop} [DecidableRel r] [IsTrans κ r] (p : κ → Bool)
    (a : κ) (l : List κ) (hl : l.Pairwise r) :
    (l.orderedInsert r a).filter p=
      if p a then (l.filter p).orderedInsert r a else l.filter p := by
  induction l with
  | nil => cases hp : p a <;> simp only [List.orderedInsert_nil,List.filter_cons,List.filter_nil,
      hp,if_true,Bool.false_eq_true,if_false]
  | cons b rest ih =>
    obtain ⟨hb,hrest⟩ := List.pairwise_cons.mp hl
    rw [List.orderedInsert_cons]
    by_cases hab : r a b
    · rw [if_pos hab]
      -- `a` stands before `b`, so before whatever is kept of the list
      have hall : ∀ c∈(b::rest).filter p, r a c := by
        intro c hc
        rcases List.mem_cons.mp (List.mem_of_mem_filter hc) with rfl | hm
        · exact hab
        · exact IsTrans.trans _ _ _ hab (hb c hm)
      have hins : ((b::rest).filter p).orderedInsert r a=a::(b::rest).filter p := by
        cases hk : (b::rest).filter p with
        | nil => rfl
        | cons c kept =>
          rw [List.orderedInsert_cons_of_le]
          exact hall c (hk ▸ List.mem_cons_self)
      rw [hins,List.filter_cons]
    · rw [if_neg hab,List.filter_cons,ih hrest,List.filter_cons]
      cases hp : p b with
      | true =>
        simp only [if_true]
        split
        · rw [List.orderedInsert_of_not_le _ _ hab]
        · rfl
      | false => simp only [Bool.false_eq_true,if_false]

/-- Sorting and filtering commute. -/
theorem filter_insertionSort {r : κ → κ → Prop} [DecidableRel r] [IsTrans κ r] [Std.Total r]
    (p : κ → Bool) (l : List κ) :
    (l.insertionSort r).filter p=(l.filter p).insertionSort r := by
  induction l with
  | nil => rfl
  | cons a rest ih =>
    rw [List.insertionSort_cons,filter_orderedInsert p a _ (List.pairwise_insertionSort r rest),
      ih,List.filter_cons]
    split
    · rw [List.insertionSort_cons]
    · rfl

/-- The largest come first, whatever their order. -/
instance sizeTrans (size : κ → ℕ) : IsTrans κ (fun a b => size b ≤ size a) :=
  ⟨fun _ _ _ hab hbc => hbc.trans hab⟩

instance sizeTotal (size : κ → ℕ) : Std.Total (fun a b : κ => size b ≤ size a) :=
  ⟨fun a b => Nat.le_total (size b) (size a)⟩

/-- Amounts that agree on the keys sort them alike. -/
theorem insertionSort_congr {size size' : κ → ℕ} (l : List κ) (hl : ∀ k∈l, size k=size' k) :
    l.insertionSort (fun a b => size b ≤ size a)=
      l.insertionSort (fun a b => size' b ≤ size' a) := by
  have hm := List.map_insertionSort (fun a b => size b ≤ size a) (fun a b => size' b ≤ size' a) id l
    (fun a ha b hb => by rw [id,id,hl a ha,hl b hb])
  rwa [List.map_id,List.map_id] at hm

/-- The scan that keeps the first largest holder so far. -/
def scanMax (size : κ → ℕ) : List κ → Option κ → ℕ → Option κ
  | [],best,_ => best
  | k::rest,best,most =>
    if most<size k then scanMax size rest (some k) (size k) else scanMax size rest best most

/-- The best of a scan and of the line it scans. -/
def better (size : κ → ℕ) (best : Option κ) (most : ℕ) : Option κ → Option κ
  | none => best
  | some k => if most<size k then some k else best

/-- The head of the line of the largest, one key at a time. -/
theorem largestFirst_cons_head (size : κ → ℕ) (k : κ) (rest : List κ) :
    (largestFirst size (k::rest)).head?=
      if 0<size k then better size (some k) (size k) (largestFirst size rest).head?
      else (largestFirst size rest).head? := by
  rw [largestFirst,List.filter_cons]
  by_cases hk : 0<size k
  · rw [if_pos (decide_eq_true hk),if_pos hk,List.insertionSort_cons]
    change (List.orderedInsert _ k (largestFirst size rest)).head?=_
    cases largestFirst size rest with
    | nil => rfl
    | cons c kept =>
      rw [List.orderedInsert_cons,List.head?_cons,better]
      by_cases hc : size c ≤ size k
      · rw [if_pos hc,if_neg (by omega),List.head?_cons]
      · rw [if_neg hc,if_pos (by omega),List.head?_cons]
  · rw [if_neg (by rwa [decide_eq_true_eq]),if_neg hk]
    rfl

/-- The scan ends with the better of its best and the head of the line. -/
theorem scanMax_eq (size : κ → ℕ) (order : List κ) : ∀ (best : Option κ) (most : ℕ),
    scanMax size order best most=better size best most (largestFirst size order).head? := by
  induction order with
  | nil => intro best most; rfl
  | cons k rest ih =>
    intro best most
    rw [scanMax,largestFirst_cons_head]
    by_cases hm : most<size k
    · rw [if_pos hm,if_pos (by omega),ih]
      cases (largestFirst size rest).head? with
      | none => simp only [better,if_pos hm]
      | some c =>
        simp only [better]
        by_cases hc : size k<size c
        · rw [if_pos hc]
          exact (if_pos (by omega)).symm
        · rw [if_neg hc]
          exact (if_pos hm).symm
    · rw [if_neg hm,ih]
      by_cases hk : 0<size k
      · rw [if_pos hk]
        cases (largestFirst size rest).head? with
        | none => simp only [better,if_neg hm]
        | some c =>
          simp only [better]
          by_cases hc : size k<size c
          · rw [if_pos hc]
          · rw [if_neg hc,if_neg (by omega)]
            exact (if_neg hm).symm
      · rw [if_neg hk]

/-- A scan from nothing finds the head of the line. -/
theorem scanMax_head (size : κ → ℕ) (order : List κ) :
    scanMax size order none 0=(largestFirst size order).head? := by
  rw [scanMax_eq]
  cases hh : (largestFirst size order).head? with
  | none => rfl
  | some k =>
    have hm : k∈largestFirst size order := List.mem_of_head? hh
    rw [largestFirst,List.mem_insertionSort] at hm
    rw [better,if_pos (of_decide_eq_true (List.mem_filter.mp hm).2)]

/-- The shortest prefix of a line that together with what is free covers a
need. -/
structure ShortestPrefix (need free : ℕ) (size : κ → ℕ) (line chosen : List κ) : Prop where
  /-- It is a prefix. -/
  chosen_prefix : chosen <+: line
  /-- It covers the need. -/
  covers : need≤free+(chosen.map size).sum
  /-- No shorter prefix does. -/
  shortest : ∀ shorter, shorter <+: line → need≤free+(shorter.map size).sum →
    chosen.length ≤ shorter.length

/-- Where enough is free nobody has to be chosen. -/
theorem ShortestPrefix.nothing {line : List κ} (hf : need≤free) :
    ShortestPrefix need free size line [] :=
  ⟨List.nil_prefix,hf,fun _ _ _ => Nat.zero_le _⟩

/-- Nobody is chosen exactly when enough is free. -/
theorem ShortestPrefix.nil_iff {line chosen : List κ}
    (hs : ShortestPrefix need free size line chosen) : chosen=[] ↔ need≤free := by
  constructor
  · intro he
    have hc := hs.covers
    rwa [he,List.map_nil,List.sum_nil,Nat.add_zero] at hc
  · intro hf
    have hl := hs.shortest [] List.nil_prefix hf
    exact List.length_eq_zero_iff.mp (Nat.le_zero.mp hl)

/-- There is only one. -/
theorem ShortestPrefix.unique {line chosen chosen' : List κ}
    (hs : ShortestPrefix need free size line chosen)
    (hs' : ShortestPrefix need free size line chosen') : chosen=chosen' := by
  have hle := hs.shortest chosen' hs'.chosen_prefix hs'.covers
  have hge := hs'.shortest chosen hs.chosen_prefix hs.covers
  exact (List.prefix_of_prefix_length_le hs.chosen_prefix hs'.chosen_prefix hle).eq_of_length
    (by omega)

variable [DecidableEq κ]

/-- The amounts once one key has been emptied. -/
def emptiedAt (size : κ → ℕ) (victim : κ) : κ → ℕ := Function.update size victim 0

/-- A line of victims for all amounts. -/
structure VictimLine (κ : Type) [DecidableEq κ] where
  /-- The victims in turn. -/
  line : (κ → ℕ) → List κ
  /-- Nobody stands in line twice. -/
  line_nodup : ∀ size, (line size).Nodup
  /-- Emptying the head leaves the tail. -/
  line_tail : ∀ size victim rest, line size=victim::rest → line (emptiedAt size victim)=rest

/-- An emptied key holds nothing and the others what they held. -/
theorem emptiedAt_of_ne {size : κ → ℕ} {victim other : κ} (hn : other≠victim) :
    emptiedAt size victim other=size other := Function.update_of_ne hn 0 size

/-- Emptying one key takes it from the holders. -/
theorem holders_emptiedAt (size : κ → ℕ) (victim : κ) (order : List κ) :
    order.filter (fun k => decide (0<emptiedAt size victim k))=
      (order.filter (fun k => decide (0<size k))).filter (fun k => decide (k≠victim)) := by
  rw [List.filter_filter]
  refine List.filter_congr ?_
  intro k _
  by_cases he : k=victim
  · subst he
    simp only [emptiedAt,Function.update_self,lt_irrefl,decide_false,ne_eq,not_true,
      Bool.false_and]
  · simp only [emptiedAt_of_ne he,ne_eq,he,not_false_eq_true,decide_true,Bool.true_and]

/-- Taking the head from a list without repetition leaves its tail. -/
theorem filter_head {victim : κ} {rest : List κ} (hn : (victim::rest).Nodup) :
    (victim::rest).filter (fun k => decide (k≠victim))=rest := by
  have hv := (List.nodup_cons.mp hn).1
  rw [List.filter_cons_of_neg (by simp only [ne_eq,not_true,decide_false,Bool.false_eq_true,
    not_false_eq_true]),List.filter_eq_self]
  intro k hk
  exact decide_eq_true (fun he => hv (he ▸ hk))

/-- The line of the latest. -/
def newestLine (order : List κ) (hn : order.Nodup) : VictimLine κ where
  line size := newestFirst size order
  line_nodup size := (List.nodup_reverse.mpr hn).filter _
  line_tail size victim rest hl := by
    have hd : (victim::rest).Nodup := hl ▸ (List.nodup_reverse.mpr hn).filter _
    rw [newestFirst] at hl
    rw [newestFirst,holders_emptiedAt,hl,filter_head hd]

/-- The line of the largest. -/
def largestLine (order : List κ) (hn : order.Nodup) : VictimLine κ where
  line size := largestFirst size order
  line_nodup size := (List.perm_insertionSort _ _).nodup_iff.mpr (hn.filter _)
  line_tail size victim rest hl := by
    have hd : (victim::rest).Nodup := by
      rw [←hl,largestFirst]
      exact (List.perm_insertionSort _ _).nodup_iff.mpr (hn.filter _)
    have hc : ∀ k∈(order.filter (fun k => decide (0<size k))).filter (fun k => decide (k≠victim)),
        emptiedAt size victim k=size k := fun k hk =>
      emptiedAt_of_ne (of_decide_eq_true (List.mem_filter.mp hk).2)
    rw [largestFirst] at hl
    rw [largestFirst,holders_emptiedAt,insertionSort_congr _ hc,←filter_insertionSort,hl,
      filter_head hd]

/-- Turns that empty the head of the line while less than `need` is free, and
stop anywhere. -/
inductive Turns (l : VictimLine κ) (need : ℕ) : ℕ → (κ → ℕ) → List κ → Prop
  | stop {free : ℕ} {size : κ → ℕ} : Turns l need free size []
  | turn {free : ℕ} {size : κ → ℕ} {victim : κ} {rest later : List κ} (hf : free<need)
      (hl : l.line size=victim::rest)
      (ht : Turns l need (free+size victim) (emptiedAt size victim) later) :
      Turns l need free size (victim::later)

variable {l : VictimLine κ}

/-- The victims are a prefix of the line. -/
theorem Turns.isPrefix (ht : Turns l need free size evicted) : evicted <+: l.line size := by
  induction ht with
  | stop => exact List.nil_prefix
  | @turn free size victim rest later _ hl _ ih =>
    rw [l.line_tail size victim rest hl] at ih
    rw [hl]
    exact List.cons_prefix_cons.mpr ⟨rfl,ih⟩

/-- Whoever stands behind the head holds what he held. -/
theorem sum_behind {victim : κ} {rest : List κ} (hl : l.line size=victim::rest)
    {behind : List κ} (hb : ∀ k∈behind, k∈rest) :
    (behind.map (emptiedAt size victim)).sum=(behind.map size).sum := by
  have hn := (List.nodup_cons.mp (hl ▸ l.line_nodup size)).1
  have hm : behind.map (emptiedAt size victim)=behind.map size :=
    List.map_congr_left (fun k hk => emptiedAt_of_ne (fun he => hn (he ▸ hb k hk)))
  rw [hm]

/-- Before the last turn too little was free. -/
theorem Turns.short (ht : Turns l need free size evicted) : ∀ shorter, shorter <+: evicted →
    shorter.length<evicted.length → free+(shorter.map size).sum<need := by
  induction ht with
  | stop =>
    intro shorter _ hlt
    exact absurd hlt (Nat.not_lt_zero _)
  | @turn free size victim rest later hf hl ht ih =>
    intro shorter hp hlt
    cases shorter with
    | nil => exact hf
    | cons k behind =>
      obtain ⟨rfl,hb⟩ := List.cons_prefix_cons.mp hp
      rw [List.length_cons,List.length_cons,Nat.add_lt_add_iff_right] at hlt
      have hi := ih behind hb hlt
      have hpre := ht.isPrefix
      rw [l.line_tail size k rest hl] at hpre
      rw [sum_behind hl (fun x hx => (hb.trans hpre).subset hx)] at hi
      rw [List.map_cons,List.sum_cons]
      omega

/-- Turns that cover the need took the shortest prefix that does. -/
theorem Turns.shortest (ht : Turns l need free size evicted)
    (hc : need≤free+(evicted.map size).sum) :
    ShortestPrefix need free size (l.line size) evicted := by
  refine ⟨ht.isPrefix,hc,?_⟩
  intro shorter hp hs
  by_contra hlt
  have hpre := List.prefix_of_prefix_length_le hp ht.isPrefix (by omega)
  have hn := ht.short shorter hpre (by omega)
  omega

end CudaForge.EvictionOrder
