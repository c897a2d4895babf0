import Mathlib.Tactic

/-!
# Steps of a list schedule

Jobs of given lengths on a number of rows. Before every step some of the
waiting jobs are given free rows, in order; how many is a function of how
many rows are free. A job leaves its row when it is done. Next to it the
schedule that holds its rows until every job of a batch is done.
-/

namespace CudaForge.ListScheduling

/-- One step for every running job; those with nothing left leave. -/
def tick (running : List ℕ) : List ℕ :=
  (running.map (fun left => left-1)).filter (fun left => 0<left)

/-- The longest of some jobs. -/
def longest (jobs : List ℕ) : ℕ := jobs.foldr max 0

/-- What bounds the steps to come. -/
def weight (jobs : List ℕ) : ℕ := (jobs.map (fun left => left+1)).sum

section Jobs

variable {jobs rest : List ℕ} {left : ℕ}

theorem weight_append : weight (jobs++rest)=weight jobs+weight rest := by
  rw [weight,List.map_append,List.sum_append]
  rfl

theorem weight_split (jobs : List ℕ) (count : ℕ) :
    weight (jobs.take count)+weight (jobs.drop count)=weight jobs := by
  rw [←weight_append,List.take_append_drop]

theorem tick_cons (left : ℕ) (jobs : List ℕ) :
    tick (left::jobs)=if 1<left then (left-1)::tick jobs else tick jobs := by
  have hl : decide (0<left-1)=decide (1<left) := decide_eq_decide.mpr (by omega)
  rw [tick,List.map_cons,List.filter_cons,hl]
  by_cases h : 1<left
  · rw [if_pos (decide_eq_true h),if_pos h]
    rfl
  · rw [if_neg (fun hd => h (of_decide_eq_true hd)),if_neg h]
    rfl

theorem weight_tick (jobs : List ℕ) : weight (tick jobs)+jobs.length≤weight jobs := by
  induction jobs with
  | nil => exact Nat.le_refl 0
  | cons left jobs ih =>
    have hw : ∀ first, weight (first::jobs)=first+1+weight jobs := fun first => rfl
    have ht : weight ((left-1)::tick jobs)=left-1+1+weight (tick jobs) := rfl
    rw [tick_cons,hw,List.length_cons]
    split
    · rw [ht]
      omega
    · omega

/-- A step makes the jobs at most as much shorter as there are jobs. -/
theorem sum_tick (jobs : List ℕ) : jobs.sum≤(tick jobs).sum+jobs.length := by
  induction jobs with
  | nil => exact Nat.le_refl 0
  | cons left jobs ih =>
    rw [tick_cons,List.sum_cons,List.length_cons]
    split
    · rw [List.sum_cons]
      omega
    · omega

theorem length_tick (jobs : List ℕ) : (tick jobs).length≤jobs.length := by
  induction jobs with
  | nil => exact Nat.le_refl 0
  | cons left jobs ih =>
    rw [tick_cons,List.length_cons]
    split
    · rw [List.length_cons]
      omega
    · omega

/-- A job that is done makes room. -/
theorem length_tick_lt (h : left∈jobs) (hl : left≤1) : (tick jobs).length<jobs.length := by
  induction jobs with
  | nil => cases h
  | cons first jobs ih =>
    have hle := length_tick jobs
    rw [tick_cons,List.length_cons]
    rcases List.mem_cons.mp h with rfl | hm
    · rw [if_neg (Nat.not_lt.mpr hl)]
      omega
    · have hlt := ih hm
      split
      · rw [List.length_cons]
        omega
      · omega

theorem mem_tick (h : left∈jobs) (hl : 1<left) : left-1∈tick jobs := by
  have hp : 0<left-1 := by omega
  exact List.mem_filter.mpr ⟨List.mem_map_of_mem h,decide_eq_true hp⟩

theorem tick_pos (h : left∈tick jobs) : 0<left := of_decide_eq_true (List.mem_filter.mp h).2

theorem longest_cons (left : ℕ) (jobs : List ℕ) :
    longest (left::jobs)=max left (longest jobs) := rfl

theorem longest_append (jobs rest : List ℕ) :
    longest (jobs++rest)=max (longest jobs) (longest rest) := by
  induction jobs with
  | nil => exact (Nat.zero_max (longest rest)).symm
  | cons left jobs ih => rw [List.cons_append,longest_cons,ih,longest_cons,Nat.max_assoc]

theorem le_longest (h : left∈jobs) : left≤longest jobs := by
  induction jobs with
  | nil => cases h
  | cons first jobs ih =>
    rw [longest_cons]
    rcases List.mem_cons.mp h with rfl | hm
    · exact Nat.le_max_left _ _
    · exact (ih hm).trans (Nat.le_max_right _ _)

theorem longest_tick (jobs : List ℕ) : longest (tick jobs)=longest jobs-1 := by
  induction jobs with
  | nil => rfl
  | cons left jobs ih =>
    rw [tick_cons,longest_cons]
    split
    · rw [longest_cons,ih]
      omega
    · rw [ih]
      omega

end Jobs

/-- The steps of the schedule that gives a job a row as its grant says. -/
def steps (grant : ℕ → ℕ) (rows : ℕ) (running waiting : List ℕ) : ℕ :=
  if _ : running++waiting.take (grant (rows-running.length))=[] then 0
  else 1+steps grant rows (tick (running++waiting.take (grant (rows-running.length))))
    (waiting.drop (grant (rows-running.length)))
termination_by weight running+weight waiting
decreasing_by
  next h =>
    have hw := weight_tick (running++waiting.take (grant (rows-running.length)))
    have hs := weight_split waiting (grant (rows-running.length))
    have hp := List.length_pos_of_ne_nil h
    rw [weight_append] at hw
    omega

/-- A grant of free rows: never more than there are, and some if there are. -/
structure Grant (grant : ℕ → ℕ) : Prop where
  le : ∀ free, grant free≤free
  pos : ∀ free, 0<free → 0<grant free

variable {grant : ℕ → ℕ} {rows : ℕ} {running waiting : List ℕ}

theorem steps_cons (grant : ℕ → ℕ) (rows : ℕ) (running waiting : List ℕ)
    (h : running++waiting.take (grant (rows-running.length))≠[]) :
    steps grant rows running waiting=
      1+steps grant rows (tick (running++waiting.take (grant (rows-running.length))))
        (waiting.drop (grant (rows-running.length))) := by
  rw [steps,dif_neg h]

theorem steps_nil (grant : ℕ → ℕ) (rows : ℕ) : steps grant rows [] []=0 := by
  rw [steps,dif_pos (by rw [List.take_nil,List.append_nil])]

/-- Rows stay for jobs only. -/
theorem Grant.idle (h : Grant grant) (hr : 0<rows)
    (hn : running++waiting.take (grant (rows-running.length))=[]) : running=[] ∧ waiting=[] := by
  obtain ⟨hrun,htake⟩ := List.append_eq_nil_iff.mp hn
  refine ⟨hrun,?_⟩
  rw [hrun,List.take_eq_nil_iff] at htake
  refine htake.resolve_left (fun hz => ?_)
  exact Nat.lt_irrefl 0 (hz ▸ h.pos _ hr)

/-- The rows suffice. -/
theorem Grant.roomy (h : Grant grant) (waiting : List ℕ) (hr : running.length≤rows) :
    (running++waiting.take (grant (rows-running.length))).length≤rows := by
  have hg := h.le (rows-running.length)
  rw [List.length_append,List.length_take]
  omega

/-- No job is done in fewer steps than it takes. -/
theorem Grant.le_steps (h : Grant grant) (hr : 0<rows) (running waiting : List ℕ) :
    ∀ left∈running++waiting, left ≤ steps grant rows running waiting := by
  induction running, waiting using steps.induct grant rows with
  | case1 running waiting hn =>
    obtain ⟨rfl,rfl⟩ := h.idle hr hn
    exact nofun
  | case2 running waiting hn ih =>
    intro left hm
    rw [steps_cons _ _ _ _ hn]
    rw [←List.take_append_drop (grant (rows-running.length)) waiting,←List.append_assoc] at hm
    rcases List.mem_append.mp hm with ht | hd
    · by_cases hl : 1<left
      · have hle := ih (left-1) (List.mem_append_left _ (mem_tick ht hl))
        omega
      · omega
    · have hle := ih left (List.mem_append_right _ hd)
      omega

/-- No step does more than one step of work in each row. -/
theorem Grant.work_le (h : Grant grant) (hp : 0<rows) (running waiting : List ℕ)
    (hr : running.length≤rows) :
    running.sum+waiting.sum≤rows*steps grant rows running waiting := by
  induction running, waiting using steps.induct grant rows with
  | case1 running waiting hn =>
    obtain ⟨rfl,rfl⟩ := h.idle hp hn
    exact Nat.zero_le _
  | case2 running waiting hn ih =>
    have hroom := h.roomy waiting hr
    have hrest := ih ((length_tick _).trans hroom)
    have htick := sum_tick (running++waiting.take (grant (rows-running.length)))
    have hsplit := congrArg List.sum
      (List.take_append_drop (grant (rows-running.length)) waiting)
    rw [List.sum_append] at htick hsplit
    rw [steps_cons _ _ _ _ hn,Nat.mul_add,Nat.mul_one]
    omega

/-- Running jobs alone take as long as the longest. -/
theorem steps_running (hp : ∀ left∈running, 0<left) :
    steps grant rows running []=longest running := by
  generalize hw : weight running=bound
  induction bound using Nat.strong_induction_on generalizing running with
  | _ bound ih =>
    by_cases hn : running=[]
    · rw [hn,steps_nil]
      rfl
    · have htake : running++([] : List ℕ).take (grant (rows-running.length))=running := by
        rw [List.take_nil,List.append_nil]
      have hne : running++([] : List ℕ).take (grant (rows-running.length))≠[] := htake.symm ▸ hn
      have hlt := weight_tick running
      have hlen := List.length_pos_of_ne_nil hn
      rw [steps_cons _ _ _ _ hne,htake,List.drop_nil,
        ih (weight (tick running)) (by omega) (fun _ hm => tick_pos hm) rfl,longest_tick]
      obtain ⟨first,hm⟩ := List.exists_mem_of_ne_nil running hn
      have hle := le_longest hm
      have hpos := hp first hm
      omega

/-- When everything is given a row at once the longest job decides. -/
theorem steps_all (hp : ∀ left∈running++waiting, 0<left)
    (hg : waiting.length≤grant (rows-running.length)) :
    steps grant rows running waiting=longest (running++waiting) := by
  by_cases hn : running++waiting=[]
  · obtain ⟨hrun,hwait⟩ := List.append_eq_nil_iff.mp hn
    rw [hrun,hwait,steps_nil]
    rfl
  · have htake := List.take_of_length_le hg
    have hne : running++waiting.take (grant (rows-running.length))≠[] := htake.symm ▸ hn
    rw [steps_cons _ _ _ _ hne,htake,List.drop_of_length_le hg,
      steps_running (fun _ hm => tick_pos hm),longest_tick]
    obtain ⟨first,hm⟩ := List.exists_mem_of_ne_nil _ hn
    have hle := le_longest hm
    have hpos := hp first hm
    omega

/-- One row does one job after the other. -/
theorem Grant.steps_single (h : Grant grant) (hr : running.length≤1)
    (hp : ∀ left∈running++waiting, 0<left) :
    steps grant 1 running waiting=running.sum+waiting.sum := by
  induction running, waiting using steps.induct grant 1 with
  | case1 running waiting hn =>
    obtain ⟨rfl,rfl⟩ := h.idle Nat.one_pos hn
    exact steps_nil grant 1
  | case2 running waiting hn ih =>
    have hsplit := List.take_append_drop (grant (1-running.length)) waiting
    have hpos : ∀ left∈running++waiting.take (grant (1-running.length)), 0<left := by
      intro left hm
      refine hp left ?_
      rw [←hsplit,←List.append_assoc]
      exact List.mem_append_left _ hm
    have hroom := h.roomy waiting hr
    have hrest := ih ((length_tick _).trans hroom) (fun left hm => by
      rcases List.mem_append.mp hm with ht | hd
      · exact tick_pos ht
      · exact hp left (List.mem_append_right _ (List.mem_of_mem_drop hd)))
    rw [steps_cons _ _ _ _ hn,hrest]
    have hsum := congrArg List.sum hsplit
    rw [List.sum_append] at hsum
    -- exactly one job runs
    obtain ⟨only,ho⟩ := List.length_eq_one_iff.mp
      (Nat.le_antisymm hroom (List.length_pos_of_ne_nil hn))
    have hone := congrArg List.sum ho
    have hleft := hpos only (ho ▸ List.mem_singleton_self only)
    rw [List.sum_append,List.sum_singleton] at hone
    rw [ho,tick_cons]
    split
    · have ht : ((only-1)::tick []).sum=only-1 := List.sum_singleton
      rw [ht]
      omega
    · have ht : (tick []).sum=0 := rfl
      rw [ht]
      omega

/-- A job that waits alone waits for one running job at most. -/
theorem Grant.steps_last (h : Grant grant) (rows : ℕ) (running : List ℕ)
    (hp : ∀ left∈running, 0<left) {last : ℕ} (hl : 0<last) (hr : running.length≤rows) (bound : ℕ)
    (hb : running.length<rows ∨ ∃ left∈running, left≤bound) :
    steps grant rows running [last] ≤ max (longest running) (bound+last) := by
  induction bound generalizing running with
  | zero =>
    have hlt : running.length<rows := by
      refine hb.resolve_right ?_
      intro ⟨left,hm,hle⟩
      exact Nat.lt_irrefl 0 ((hp left hm).trans_le hle)
    have hg := h.pos (rows-running.length) (by omega)
    rw [steps_all ?_ hg,longest_append,longest_cons]
    · exact max_le_max (Nat.le_refl _) (by simp only [longest,List.foldr_nil]; omega)
    · intro left hm
      rcases List.mem_append.mp hm with hm | hm
      · exact hp left hm
      · exact List.mem_singleton.mp hm ▸ hl
  | succ bound ih =>
    by_cases hfull : running.length<rows
    · have hless := ih running hp hr (Or.inl hfull)
      omega
    · obtain ⟨left,hm,hle⟩ := hb.resolve_left hfull
      have hz : grant (rows-running.length)=0 := by
        have hg := h.le (rows-running.length)
        omega
      have htake : running++[last].take (grant (rows-running.length))=running := by
        rw [hz,List.take_zero,List.append_nil]
      have hne : running++[last].take (grant (rows-running.length))≠[] := by
        rw [htake]
        exact List.ne_nil_of_mem hm
      have hleft := le_longest hm
      have hpos := hp left hm
      have hrest := ih (tick running) (fun _ ht => tick_pos ht)
        ((length_tick running).trans hr) (by
          by_cases hone : left≤1
          · exact Or.inl ((length_tick_lt hm hone).trans_le hr)
          · exact Or.inr ⟨left-1,mem_tick hm (by omega),by omega⟩)
      rw [longest_tick] at hrest
      rw [steps_cons _ _ _ _ hne,htake,hz,List.drop_zero]
      omega

/-- The steps of the schedule that runs one batch after the other, each until
its longest job is done. -/
def batched (rows : ℕ) (waiting : List ℕ) : ℕ :=
  if _ : rows=0 ∨ waiting=[] then 0
  else longest (waiting.take rows)+batched rows (waiting.drop rows)
termination_by waiting.length
decreasing_by
  next h =>
    have hw := List.length_pos_of_ne_nil (fun hw => h (Or.inr hw))
    rw [List.length_drop]
    omega

theorem batched_nil (rows : ℕ) : batched rows []=0 := by
  rw [batched,dif_pos (Or.inr rfl)]

theorem batched_cons (hr : 0<rows) (hw : waiting≠[]) :
    batched rows waiting=longest (waiting.take rows)+batched rows (waiting.drop rows) := by
  rw [batched,dif_neg (not_or.mpr ⟨hr.ne',hw⟩)]

/-- One batch. -/
theorem batched_all (hw : waiting.length≤rows) : batched rows waiting=longest waiting := by
  by_cases hn : waiting=[]
  · rw [hn,batched_nil]
    rfl
  · have hp := List.length_pos_of_ne_nil hn
    rw [batched_cons (hp.trans_le hw) hn,List.take_of_length_le hw,List.drop_of_length_le hw,
      batched_nil,Nat.add_zero]

theorem batched_single (waiting : List ℕ) : batched 1 waiting=waiting.sum := by
  induction waiting with
  | nil => exact batched_nil 1
  | cons first rest ih =>
    rw [batched_cons Nat.one_pos (List.cons_ne_nil first rest),List.drop_one,List.tail_cons,ih,
      List.take_succ_cons,List.take_zero,List.sum_cons,longest_cons]
    simp only [longest,List.foldr_nil,Nat.max_zero]

end CudaForge.ListScheduling
