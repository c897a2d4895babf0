import Mathlib.Tactic

/-!
# Threads between two barriers

What a block's threads do to a shared memory between two barriers. Each thread
rewrites cells of its own, in whatever order the threads run; as long as no
address is written twice a cell ends as its one writer makes it. A strided loop
deals columns out to threads so that each column has one thread.
-/

namespace CudaForge.ThreadPhases

section Phases

variable {α K : Type}

/-- One thread rewrites its cells one after another. -/
def scatter (address : α → ℕ) (rewrite : α → K → K) (cells : List α) (memory : ℕ → K) : ℕ → K :=
  cells.foldl (fun memory cell =>
    Function.update memory (address cell) (rewrite cell (memory (address cell)))) memory

/-- The threads of a block, each with its own cells. -/
def phase (address : α → ℕ) (rewrite : ℕ → α → K → K) (cells : ℕ → List α) (threads : List ℕ)
    (memory : ℕ → K) : ℕ → K :=
  threads.foldl (fun memory thread => scatter address (rewrite thread) (cells thread) memory)
    memory

/-- The addresses that the threads write to, as often as they do. -/
def written (address : α → ℕ) (cells : ℕ → List α) (threads : List ℕ) : List ℕ :=
  threads.flatMap (fun thread => (cells thread).map address)

variable {address : α → ℕ} {rewrite : α → K → K} {cells : List α}

/-- An address that no cell has keeps its value. -/
theorem scatter_other {memory : ℕ → K} {place : ℕ} (h : place∉cells.map address) :
    scatter address rewrite cells memory place=memory place := by
  induction cells generalizing memory with
  | nil => rfl
  | cons cell cells ih =>
    rw [List.map_cons,List.mem_cons,not_or] at h
    exact (ih h.2).trans (Function.update_of_ne h.1 _ _)

/-- A cell that is written once is rewritten from what it held. -/
theorem scatter_apply {memory : ℕ → K} (hn : (cells.map address).Nodup) {cell : α}
    (hc : cell∈cells) : scatter address rewrite cells memory (address cell)=
      rewrite cell (memory (address cell)) := by
  induction cells generalizing memory with
  | nil => exact absurd hc List.not_mem_nil
  | cons first cells ih =>
    rw [List.map_cons,List.nodup_cons] at hn
    change scatter address rewrite cells (Function.update memory (address first)
      (rewrite first (memory (address first)))) (address cell)=_
    rcases List.mem_cons.mp hc with rfl|hc
    · rw [scatter_other hn.1,Function.update_self]
    · have hne : address cell≠address first := by
        intro he
        exact hn.1 (he ▸ List.mem_map_of_mem hc)
      rw [ih hn.2 hc,Function.update_of_ne hne]

variable {rewrites : ℕ → α → K → K} {owned : ℕ → List α} {threads : List ℕ}

/-- An address that no thread writes to keeps its value. -/
theorem phase_other {memory : ℕ → K} {place : ℕ} (h : place∉written address owned threads) :
    phase address rewrites owned threads memory place=memory place := by
  induction threads generalizing memory with
  | nil => rfl
  | cons thread threads ih =>
    rw [written,List.flatMap_cons,List.mem_append,not_or] at h
    exact (ih h.2).trans (scatter_other h.1)

/-- When no address is written twice, a cell ends as its thread makes it. -/
theorem phase_apply {memory : ℕ → K} (hn : (written address owned threads).Nodup) {thread : ℕ}
    (ht : thread∈threads) {cell : α} (hc : cell∈owned thread) :
    phase address rewrites owned threads memory (address cell)=
      rewrites thread cell (memory (address cell)) := by
  induction threads generalizing memory with
  | nil => exact absurd ht List.not_mem_nil
  | cons first threads ih =>
    rw [written,List.flatMap_cons,List.nodup_append'] at hn
    change phase address rewrites owned threads
      (scatter address (rewrites first) (owned first) memory) (address cell)=_
    rcases List.mem_cons.mp ht with rfl|ht
    · rw [phase_other (hn.2.2 (List.mem_map_of_mem hc)),scatter_apply hn.1 hc]
    · have hother : address cell∉(owned first).map address := by
        intro hm
        exact hn.2.2 hm (List.mem_flatMap.mpr ⟨thread,ht,List.mem_map_of_mem hc⟩)
      rw [ih hn.2.1 ht,scatter_other hother]

/-- The order of the threads does not matter to what they write. -/
theorem written_perm {others : List ℕ} (h : threads.Perm others) :
    (written address owned threads).Perm (written address owned others) :=
  h.flatMap_right _

end Phases

section Strides

/-- The columns that a strided loop visits, in at most so many turns. -/
def strideLoop (bound step : ℕ) : ℕ → ℕ → List ℕ
  | 0,_ => []
  | turns+1,column =>
    if column<bound then column::strideLoop bound step turns (column+step) else []

/-- The columns of a thread, from its own index on in steps of the block. -/
def columnsOf (bound step thread : ℕ) : List ℕ := strideLoop bound step bound thread

/-- The same loop with a machine integer as its counter, which overflows when an
addition goes past the limit. -/
def intLoop (limit bound step : ℕ) : ℕ → ℕ → Option (List ℕ)
  | 0,_ => some []
  | turns+1,column =>
    if column<bound then
      if column+step≤limit then
        (intLoop limit bound step turns (column+step)).map (column::·)
      else none
    else some []

/-- The columns of a block's threads, as long as no thread's counter overflows. -/
def intColumns (limit bound step : ℕ) : Option (ℕ → List ℕ) :=
  if ∀ thread < step, (intLoop limit bound step bound thread).isSome then
    some (fun thread => (intLoop limit bound step bound thread).getD [])
  else none

variable {bound step turns start thread column : ℕ}

/-- What the loop visits. -/
theorem mem_strideLoop : column∈strideLoop bound step turns start ↔
    ∃ turn < turns, column=start+turn*step ∧ column<bound := by
  induction turns generalizing start with
  | zero =>
    refine iff_of_false List.not_mem_nil ?_
    rintro ⟨turn,hlt,_⟩
    exact Nat.not_lt_zero turn hlt
  | succ turns ih =>
    rw [strideLoop]
    constructor
    · intro hm
      split at hm
      · rcases List.mem_cons.mp hm with rfl|hm
        · exact ⟨0,Nat.succ_pos _,by rw [Nat.zero_mul,Nat.add_zero],by assumption⟩
        · obtain ⟨turn,hlt,he,hb⟩ := ih.mp hm
          refine ⟨turn+1,Nat.succ_lt_succ hlt,?_,hb⟩
          rw [he,Nat.succ_mul]
          omega
      · exact absurd hm List.not_mem_nil
    · rintro ⟨turn,hlt,he,hb⟩
      have hs : start<bound := by
        have h0 := Nat.zero_le (turn*step)
        omega
      rw [if_pos hs]
      cases turn with
      | zero =>
        rw [Nat.zero_mul,Nat.add_zero] at he
        exact he ▸ List.mem_cons_self
      | succ turn =>
        refine List.mem_cons_of_mem _ (ih.mpr ⟨turn,Nat.lt_of_succ_lt_succ hlt,?_,hb⟩)
        rw [he,Nat.succ_mul]
        omega

/-- It goes upwards. -/
theorem strideLoop_increasing (hs : 0<step) :
    (strideLoop bound step turns start).Pairwise (·<·) := by
  induction turns generalizing start with
  | zero => exact List.Pairwise.nil
  | succ turns ih =>
    rw [strideLoop]
    split
    · refine List.pairwise_cons.mpr ⟨?_,ih⟩
      intro column hm
      obtain ⟨turn,_,he,_⟩ := mem_strideLoop.mp hm
      have h0 := Nat.zero_le (turn*step)
      omega
    · exact List.Pairwise.nil

/-- A thread visits no column twice. -/
theorem columnsOf_nodup (hs : 0<step) : (columnsOf bound step thread).Nodup :=
  (strideLoop_increasing hs).imp (fun h => h.ne)

/-- A column belongs to the thread that it leaves as a remainder. -/
theorem mem_columnsOf (ht : thread<step) :
    column∈columnsOf bound step thread ↔ column<bound ∧ column%step=thread := by
  rw [columnsOf,mem_strideLoop]
  constructor
  · rintro ⟨turn,_,he,hb⟩
    refine ⟨hb,?_⟩
    rw [he,Nat.add_mul_mod_self_right,Nat.mod_eq_of_lt ht]
  · rintro ⟨hb,hm⟩
    refine ⟨column/step,(Nat.div_le_self _ _).trans_lt hb,?_,hb⟩
    rw [←hm,Nat.mod_add_div']

/-- The loop of machine integers visits what the loop of numbers does, if each column
leaves room for one more step. -/
theorem intLoop_eq (limit : ℕ) : intLoop limit bound step turns start=
    if ∀ column∈strideLoop bound step turns start, column+step≤limit then
      some (strideLoop bound step turns start)
    else none := by
  induction turns generalizing start with
  | zero => exact (if_pos (fun column hm => absurd hm List.not_mem_nil)).symm
  | succ turns ih =>
    rw [intLoop,strideLoop]
    by_cases hb : start<bound
    · simp only [if_pos hb,List.forall_mem_cons,ih]
      by_cases hl : start+step≤limit
      · rw [if_pos hl]
        by_cases hrest : ∀ column∈strideLoop bound step turns (start+step), column+step≤limit
        · rw [if_pos hrest,if_pos ⟨hl,hrest⟩,Option.map_some]
        · rw [if_neg hrest,if_neg (fun h => hrest h.2),Option.map_none]
      · rw [if_neg hl,if_neg (fun h => hl h.1)]
    · simp only [if_neg hb]
      exact (if_pos (fun column hm => absurd hm List.not_mem_nil)).symm

/-- No counter of a block overflows if and only if the last column leaves room for
one more step. -/
theorem intColumns_eq (limit : ℕ) (hb : 0<bound) (hs : 0<step) : intColumns limit bound step=
    if bound+step≤limit+1 then some (columnsOf bound step) else none := by
  simp only [intColumns,intLoop_eq]
  by_cases hfit : bound+step≤limit+1
  · have hroom : ∀ thread, ∀ column∈strideLoop bound step bound thread, column+step≤limit := by
      intro thread column hm
      obtain ⟨turn,_,_,hc⟩ := mem_strideLoop.mp hm
      omega
    simp only [if_pos hfit,if_pos (hroom _),Option.isSome_some,implies_true,if_true]
    rfl
  · rw [if_neg hfit,if_neg]
    intro hall
    have hlast : bound-1∈columnsOf bound step ((bound-1)%step) :=
      (mem_columnsOf (Nat.mod_lt _ hs)).mpr ⟨by omega,rfl⟩
    have hsome := hall _ (Nat.mod_lt (bound-1) hs)
    rw [if_neg] at hsome
    · exact absurd hsome Bool.false_ne_true
    · intro hroom
      have hlimit := hroom _ hlast
      omega

/-- What the threads add up over their columns is the sum over all columns. -/
theorem sum_columnsOf {M : Type} [AddCommMonoid M] (bound : ℕ) (hs : 0<step) (values : ℕ → M) :
    ∑ thread ∈ Finset.range step,((columnsOf bound step thread).map values).sum=
      ∑ column ∈ Finset.range bound,values column := by
  rw [←Finset.sum_fiberwise_of_maps_to
    (fun column _ => Finset.mem_range.mpr (Nat.mod_lt column hs)) values]
  refine Finset.sum_congr rfl (fun thread hm => ?_)
  rw [←List.sum_toFinset values (columnsOf_nodup hs)]
  refine Finset.sum_congr (Finset.ext (fun column => ?_)) (fun _ _ => rfl)
  rw [List.mem_toFinset,mem_columnsOf (Finset.mem_range.mp hm),Finset.mem_filter,
    Finset.mem_range]

/-- No address is written twice when each thread writes its columns to places
of their own. -/
theorem written_columnsOf {address : ℕ → ℕ} (ha : Function.Injective address) (hs : 0<step)
    {threads : List ℕ} (hp : threads.Perm (List.range step)) :
    (written address (columnsOf bound step) threads).Nodup := by
  refine (written_perm hp).nodup_iff.mpr ?_
  refine List.nodup_flatMap.mpr ⟨fun thread _ => (columnsOf_nodup hs).map ha,?_⟩
  refine List.Nodup.pairwise_of_forall_ne List.nodup_range ?_
  intro thread hm other ho hne
  refine List.disjoint_left.mpr ?_
  intro place hp hq
  obtain ⟨column,hc,rfl⟩ := List.mem_map.mp hp
  obtain ⟨column',hc',he⟩ := List.mem_map.mp hq
  rw [ha he,mem_columnsOf (List.mem_range.mp ho)] at hc'
  rw [mem_columnsOf (List.mem_range.mp hm)] at hc
  exact hne (hc.2.symm.trans hc'.2)

variable {K : Type} {address : ℕ → ℕ} {threads : List ℕ}

/-- A column is rewritten by its thread. -/
theorem phase_column (rewrites : ℕ → ℕ → K → K) (memory : ℕ → K)
    (ha : Function.Injective address) (hs : 0<step) (hp : threads.Perm (List.range step))
    (hc : column<bound) :
    phase address rewrites (columnsOf bound step) threads memory (address column)=
      rewrites (column%step) column (memory (address column)) := by
  have hlt := Nat.mod_lt column hs
  exact phase_apply (written_columnsOf ha hs hp) (hp.mem_iff.mpr (List.mem_range.mpr hlt))
    ((mem_columnsOf hlt).mpr ⟨hc,rfl⟩)

/-- A place that no column has keeps its value. -/
theorem phase_outside (rewrites : ℕ → ℕ → K → K) (memory : ℕ → K)
    (hp : threads.Perm (List.range step)) {place : ℕ} (h : ∀ column < bound, address column≠place) :
    phase address rewrites (columnsOf bound step) threads memory place=memory place := by
  refine phase_other ?_
  intro hm
  obtain ⟨thread,ht,hm⟩ := List.mem_flatMap.mp hm
  obtain ⟨column,hc,he⟩ := List.mem_map.mp hm
  rw [mem_columnsOf (List.mem_range.mp (hp.mem_iff.mp ht))] at hc
  exact h column hc.1 he

end Strides

/-- Blocks that run one after another, where a place that a block writes to gets
a value of its own. -/
theorem foldl_regions {K : Type} (run : ℕ → (ℕ → K) → ℕ → K) (value : ℕ → K)
    (region : ℕ → ℕ → Prop) [∀ block place, Decidable (region block place)] {blocks : List ℕ}
    (hrun : ∀ block∈blocks, ∀ memory place,
      run block memory place=if region block place then value place else memory place)
    (memory : ℕ → K) (place : ℕ) :
    blocks.foldl (fun memory block => run block memory) memory place=
      if ∃ block∈blocks, region block place then value place else memory place := by
  induction blocks generalizing memory with
  | nil =>
    rw [if_neg]
    · rfl
    · rintro ⟨block,hm,_⟩
      exact absurd hm List.not_mem_nil
  | cons block blocks ih =>
    rw [List.foldl_cons,ih (fun other hm => hrun other (List.mem_cons_of_mem _ hm)),
      hrun block List.mem_cons_self]
    by_cases hrest : ∃ other∈blocks, region other place
    · obtain ⟨other,hm,hr⟩ := hrest
      rw [if_pos ⟨other,hm,hr⟩,if_pos ⟨other,List.mem_cons_of_mem _ hm,hr⟩]
    · rw [if_neg hrest]
      by_cases hfirst : region block place
      · rw [if_pos hfirst,if_pos ⟨block,List.mem_cons_self,hfirst⟩]
      · rw [if_neg hfirst,if_neg]
        rintro ⟨other,hm,hr⟩
        rcases List.mem_cons.mp hm with rfl|hm
        · exact hfirst hr
        · exact hrest ⟨other,hm,hr⟩

/-- Blocks that run one after another over places of their own, where a block
makes of its places what it makes of them at the start. -/
theorem foldl_owned {B S A V : Type} (read : S → A → V) (run : B → S → S) (value : A → V)
    (region : B → A → Prop) [∀ block place, Decidable (region block place)] (start : S)
    {blocks : List B} (hn : blocks.Nodup)
    (happart : ∀ block other place, region block place → region other place → block=other)
    (hrun : ∀ block∈blocks, ∀ s, (∀ place, region block place → read s place=read start place) →
      ∀ place, read (run block s) place=
        if region block place then value place else read s place) (place : A) :
    read (blocks.foldl (fun s block => run block s) start) place=
      if ∃ block∈blocks, region block place then value place else read start place := by
  have hgeneral : ∀ (rest : List B), rest.Nodup → (∀ block∈rest, block∈blocks) → ∀ s,
      (∀ block∈rest, ∀ place, region block place → read s place=read start place) →
      read (rest.foldl (fun s block => run block s) s) place=
        if ∃ block∈rest, region block place then value place else read s place := by
    intro rest
    induction rest with
    | nil =>
      intro _ _ s _
      rw [if_neg]
      · rfl
      · rintro ⟨block,hm,_⟩
        exact absurd hm List.not_mem_nil
    | cons block rest ih =>
      intro hn hsub s hs
      rw [List.nodup_cons] at hn
      have hstep := hrun block (hsub block List.mem_cons_self) s (hs block List.mem_cons_self)
      have hrest : ∀ other∈rest, ∀ place, region other place →
          read (run block s) place=read start place := by
        intro other hm place hr
        have hne : ¬region block place := by
          intro hb
          exact hn.1 (happart block other place hb hr ▸ hm)
        rw [hstep,if_neg hne]
        exact hs other (List.mem_cons_of_mem _ hm) place hr
      rw [List.foldl_cons,ih hn.2 (fun other hm => hsub other (List.mem_cons_of_mem _ hm)) _ hrest,
        hstep]
      by_cases hlater : ∃ other∈rest, region other place
      · obtain ⟨other,hm,hr⟩ := hlater
        rw [if_pos ⟨other,hm,hr⟩,if_pos ⟨other,List.mem_cons_of_mem _ hm,hr⟩]
      · rw [if_neg hlater]
        by_cases hfirst : region block place
        · rw [if_pos hfirst,if_pos ⟨block,List.mem_cons_self,hfirst⟩]
        · rw [if_neg hfirst,if_neg]
          rintro ⟨other,hm,hr⟩
          rcases List.mem_cons.mp hm with rfl|hm
          · exact hfirst hr
          · exact hlater ⟨other,hm,hr⟩
  exact hgeneral blocks hn (fun _ hm => hm) start (fun _ _ _ _ => rfl)

end CudaForge.ThreadPhases
