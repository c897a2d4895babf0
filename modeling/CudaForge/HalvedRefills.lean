import CudaForge.ListScheduling

/-!
# Refilling half of the free rows

The schedule whose passes fill only half of the free rows, rounded up. It
never needs more steps than batches do exactly when there is a single row,
when the first pass takes every job, or for four jobs on three rows.
-/

namespace CudaForge.HalvedRefills

open ListScheduling

/-- Half of the free rows, rounded up. -/
def halved (free : ℕ) : ℕ := (free+1)/2

theorem halved_grant : Grant halved := by
  constructor
  · intro free
    rw [halved]
    omega
  · intro free hf
    rw [halved]
    omega

/-- For how many jobs on how many rows batches never need fewer steps. -/
def Suffices (rows count : ℕ) : Prop := rows=1 ∨ count≤halved rows ∨ rows=3 ∧ count=4

/-- Four jobs on three rows. -/
theorem four_on_three {a b c d : ℕ} (ha : 0<a) (hb : 0<b) (hc : 0<c) (hd : 0<d) :
    steps halved 3 [] [a,b,c,d]≤batched 3 [a,b,c,d] := by
  have hbatched : batched 3 [a,b,c,d]=max a (max b c)+d := by
    have hone : [d].length≤3 := Nat.one_le_ofNat
    have hrest : batched 3 [d]=d := (batched_all hone).trans (Nat.max_zero d)
    rw [batched_cons (by decide) (List.cons_ne_nil _ _)]
    exact congrArg₂ (·+·) (congrArg (fun x => max a (max b x)) (Nat.max_zero c)) hrest
  have hfirst : steps halved 3 [] [a,b,c,d]=1+steps halved 3 (tick [a,b]) [c,d] :=
    steps_cons halved 3 [] [a,b,c,d] (List.cons_ne_nil a [b])
  have hnil : tick []=[] := rfl
  have hone : halved (3-(0+1))=1 := by decide
  have htwo : halved (3-(0+1+1))=1 := by decide
  have hpos : ∀ left∈tick [a,b],0<left := fun _ h => tick_pos h
  rw [hbatched,hfirst]
  by_cases hab : a=1 ∧ b=1
  · have htick : tick [a,b]=[] := by
      rw [hab.1,hab.2]
      rfl
    have hall : steps halved 3 [] [c,d]=max c d := by
      rw [steps_all (fun left hm => ?_) (Nat.le_refl 2),List.nil_append,longest_cons,longest_cons]
      · exact congrArg (max c) (Nat.max_zero d)
      · rcases List.mem_cons.mp hm with rfl | hm
        · exact hc
        · exact List.mem_singleton.mp hm ▸ hd
    rw [htick,hall]
    omega
  · by_cases hlong : 1<a ∧ 1<b
    · have htick : tick [a,b]=[a-1,b-1] := by
        rw [tick_cons,if_pos hlong.1,tick_cons,if_pos hlong.2,hnil]
      have hsecond : steps halved 3 [a-1,b-1] [c,d]=1+steps halved 3 (tick [a-1,b-1,c]) [d] := by
        rw [steps_cons halved 3 [a-1,b-1] [c,d]
          (List.append_ne_nil_of_left_ne_nil (List.cons_ne_nil _ _) _)]
        simp only [List.length_cons,List.length_nil,htwo]
        rfl
      have hlast := halved_grant.steps_last 3 (tick [a-1,b-1,c])
        (fun _ h => tick_pos h) hd (length_tick _) (a-2) (by
          by_cases hone : a-1≤1
          · exact Or.inl (length_tick_lt List.mem_cons_self hone)
          · exact Or.inr ⟨a-1-1,mem_tick List.mem_cons_self (by omega),by omega⟩)
      have hlongest : longest [a-1,b-1,c]=max (a-1) (max (b-1) c) :=
        congrArg (fun x => max (a-1) (max (b-1) x)) (Nat.max_zero c)
      rw [longest_tick,hlongest] at hlast
      rw [htick,hsecond]
      omega
    · -- exactly one of the first two is done
      have htick : ∃ left, tick [a,b]=[left] ∧ left+1=max a b := by
        rw [tick_cons,tick_cons,hnil]
        by_cases hone : 1<a
        · have hbone : ¬1<b := fun hbl => hlong ⟨hone,hbl⟩
          rw [if_pos hone,if_neg hbone]
          exact ⟨a-1,rfl,by omega⟩
        · have hbone : 1<b := by omega
          rw [if_neg hone,if_pos hbone]
          exact ⟨b-1,rfl,by omega⟩
      obtain ⟨left,ht,hl⟩ := htick
      have hsecond : steps halved 3 [left] [c,d]=1+steps halved 3 (tick [left,c]) [d] := by
        rw [steps_cons halved 3 [left] [c,d]
          (List.append_ne_nil_of_left_ne_nil (List.cons_ne_nil _ _) _)]
        simp only [List.length_cons,List.length_nil,hone]
        rfl
      have hlast := halved_grant.steps_last 3 (tick [left,c])
        (fun _ h => tick_pos h) hd ((length_tick _).trans (Nat.le_succ 2)) 0
        (Or.inl ((length_tick _).trans_lt (Nat.lt_succ_self 2)))
      have hlongest : longest [left,c]=max left c :=
        congrArg (max left) (Nat.max_zero c)
      rw [longest_tick,hlongest] at hlast
      rw [ht,hsecond]
      omega

/-- Where it suffices the schedule needs no more steps than the batches. -/
theorem steps_le_batched {rows : ℕ} (hr : 0<rows) {jobs : List ℕ} (hp : ∀ left∈jobs, 0<left)
    (h : Suffices rows jobs.length) : steps halved rows [] jobs≤batched rows jobs := by
  rcases h with rfl | hall | ⟨rfl,hfour⟩
  · rw [halved_grant.steps_single (Nat.zero_le _) hp,batched_single,List.sum_nil,Nat.zero_add]
  · have hrows : jobs.length≤rows := hall.trans (halved_grant.le rows)
    rw [steps_all hp hall,List.nil_append,batched_all hrows]
  · match jobs, hfour with
    | [a,b,c,d],_ =>
      have hmem : ∀ left∈[a,b,c,d],0<left := hp
      simp only [List.forall_mem_cons] at hmem
      exact four_on_three hmem.1 hmem.2.1 hmem.2.2.1 hmem.2.2.2.1

theorem tick_ones (count : ℕ) : tick (List.replicate count 1)=[] := by
  induction count with
  | zero => rfl
  | succ count ih => rw [List.replicate_succ,tick_cons,if_neg (Nat.lt_irrefl 1),ih]

/-- Jobs of one step: every step does as many as it is granted. -/
theorem ones_le_steps {rows : ℕ} (hr : 0<rows) (count : ℕ) :
    count≤halved rows*steps halved rows [] (List.replicate count 1) := by
  have hg := halved_grant.pos rows hr
  induction count using Nat.strong_induction_on with
  | _ count ih =>
    by_cases hz : count=0
    · rw [hz]
      exact Nat.zero_le _
    · have htake : ([] : List ℕ)++(List.replicate count 1).take (halved (rows-0))=
          List.replicate (min (halved rows) count) 1 := List.take_replicate
      have hne : ([] : List ℕ)++(List.replicate count 1).take (halved (rows-0))≠[] := by
        rw [htake]
        exact List.ne_nil_of_length_pos (by rw [List.length_replicate]; omega)
      have hrest := ih (count-halved rows) (by omega)
      have hdrop : (List.replicate count 1).drop (halved (rows-0))=
          List.replicate (count-halved rows) 1 := List.drop_replicate
      rw [steps_cons _ _ _ _ hne,List.length_nil,htake,hdrop,tick_ones,Nat.mul_add,Nat.mul_one]
      omega

theorem longest_ones {count : ℕ} (h : 0<count) : longest (List.replicate count 1)=1 := by
  induction count with
  | zero => exact absurd h (Nat.lt_irrefl 0)
  | succ count ih =>
    rw [List.replicate_succ,longest_cons]
    by_cases hz : count=0
    · rw [hz]
      rfl
    · rw [ih (Nat.pos_of_ne_zero hz)]
      rfl

/-- Batches of jobs of one step take one step each. -/
theorem batched_ones {rows : ℕ} (hr : 0<rows) (count : ℕ) :
    batched rows (List.replicate count 1)*rows<count+rows := by
  induction count using Nat.strong_induction_on with
  | _ count ih =>
    by_cases hz : count=0
    · rw [hz,List.replicate_zero,batched_nil]
      omega
    · have hne : List.replicate count 1≠[] :=
        List.ne_nil_of_length_pos (by rw [List.length_replicate]; omega)
      rw [batched_cons hr hne,List.take_replicate,List.drop_replicate,longest_ones (by omega),
        Nat.add_mul,Nat.one_mul]
      by_cases hle : count≤rows
      · rw [Nat.sub_eq_zero_of_le hle,List.replicate_zero,batched_nil]
        omega
      · have hrest := ih (count-rows) (by omega)
        omega

/-- One more job than an odd number of rows: after two passes one of the long
jobs still waits. -/
theorem odd_exceeds {half : ℕ} (h : 3≤half) :
    batched (2*half-1) (List.replicate (2*half-1) 3++[1])<
      steps halved (2*half-1) [] (List.replicate (2*half-1) 3++[1]) := by
  have hhalved : halved (2*half-1-0)=half := by
    rw [halved]
    omega
  have hbatched : batched (2*half-1) (List.replicate (2*half-1) 3++[1])≤4 := by
    have hlen : (List.replicate (2*half-1) 3).length=2*half-1 := List.length_replicate
    have hthree : longest (List.replicate (2*half-1) 3)≤3 := by
      generalize 2*half-1=count
      induction count with
      | zero => exact Nat.zero_le 3
      | succ count ih =>
        rw [List.replicate_succ,longest_cons]
        exact max_le (Nat.le_refl 3) ih
    rw [batched_cons (by omega) (List.append_ne_nil_of_right_ne_nil _ (List.cons_ne_nil _ _)),
      List.take_left' hlen,List.drop_left' hlen,batched_all (by rw [List.length_singleton]; omega)]
    exact Nat.add_le_add hthree (Nat.le_refl 1)
  -- the first pass
  have htake : ([] : List ℕ)++(List.replicate (2*half-1) 3++[1]).take (halved (2*half-1-0))=
      List.replicate half 3 := by
    rw [hhalved,List.nil_append,List.take_append_of_le_length
      (by rw [List.length_replicate]; omega),List.take_replicate]
    exact congrArg (fun count => List.replicate count 3) (by omega)
  have hdrop : (List.replicate (2*half-1) 3++[1]).drop (halved (2*half-1-0))=
      List.replicate (half-1) 3++[1] := by
    rw [hhalved,List.drop_append_of_le_length (by rw [List.length_replicate]; omega),
      List.drop_replicate]
    exact congrArg (fun count => List.replicate count 3++[1]) (by omega)
  have htick : tick (List.replicate half 3)=List.replicate half 2 := by
    generalize half=count
    induction count with
    | zero => rfl
    | succ count ih => rw [List.replicate_succ,tick_cons,ih]; rfl
  have hne : ([] : List ℕ)++(List.replicate (2*half-1) 3++[1]).take (halved (2*half-1-0))≠[] := by
    rw [htake]
    exact List.ne_nil_of_length_pos (by rw [List.length_replicate]; omega)
  -- the second pass
  have hfree : (2*half-1)-(List.replicate half 2).length=half-1 := by
    rw [List.length_replicate]
    omega
  have hne' : List.replicate half 2++(List.replicate (half-1) 3++[1]).take
      (halved (2*half-1-(List.replicate half 2).length))≠[] :=
    List.append_ne_nil_of_left_ne_nil
      (List.ne_nil_of_length_pos (by rw [List.length_replicate]; omega)) _
  have hwaits : 3∈(List.replicate (half-1) 3++[1]).drop
      (halved (2*half-1-(List.replicate half 2).length)) := by
    have hless : halved (half-1)<half-1 := by
      rw [halved]
      omega
    rw [hfree,List.drop_append_of_le_length (by rw [List.length_replicate]; omega),
      List.drop_replicate]
    exact List.mem_append_left _ (List.mem_replicate.mpr ⟨by omega,rfl⟩)
  have hthird := halved_grant.le_steps (by omega : 0<2*half-1)
    (tick (List.replicate half 2++(List.replicate (half-1) 3++[1]).take
      (halved (2*half-1-(List.replicate half 2).length)))) _ 3 (List.mem_append_right _ hwaits)
  rw [steps_cons _ _ _ _ hne,List.length_nil,htake,hdrop,htick,steps_cons _ _ _ _ hne']
  omega

/-- Where it does not suffice some jobs need more steps than the batches. -/
theorem exists_exceeding {rows count : ℕ} (hr : 0<rows) (h : ¬Suffices rows count) :
    ∃ jobs : List ℕ, jobs.length=count ∧ (∀ left∈jobs, 0<left) ∧
      batched rows jobs<steps halved rows [] jobs := by
  obtain ⟨hone,hmore⟩ := not_or.mp h
  obtain ⟨hmany,hthree⟩ := not_or.mp hmore
  by_cases hodd : count=rows+1 ∧ rows%2=1
  · have hrows : rows=2*((rows+1)/2)-1 := by omega
    refine ⟨List.replicate rows 3++[1],?_,?_,?_⟩
    · rw [List.length_append,List.length_replicate,hodd.1]
      rfl
    · intro left hm
      rcases List.mem_append.mp hm with hm | hm
      · exact List.eq_of_mem_replicate hm ▸ Nat.succ_pos 2
      · exact List.mem_singleton.mp hm ▸ Nat.one_pos
    · rw [hrows]
      exact odd_exceeds (by omega)
  · refine ⟨List.replicate count 1,List.length_replicate,?_,?_⟩
    · exact fun left hm => List.eq_of_mem_replicate hm ▸ Nat.one_pos
    · by_contra hle
      have hle := Nat.le_of_not_lt hle
      have hsteps := ones_le_steps hr count
      have hbatched := batched_ones hr count
      generalize hs : steps halved rows [] (List.replicate count 1)=s at *
      generalize hb : batched rows (List.replicate count 1)=b at *
      have hmul : count≤halved rows*b := hsteps.trans (Nat.mul_le_mul_left _ hle)
      generalize hh : halved rows=half at *
      rw [halved] at hh
      -- at most two batches
      have htwo : b≤2 := by
        by_contra hb3
        have hb3 : 3≤b := by omega
        obtain ⟨c,rfl⟩ := Nat.exists_eq_add_of_le hb3
        rcases Nat.even_or_odd' rows with ⟨k,rfl | rfl⟩
        · have hk : half=k := by omega
          have hleft : (3+c)*(2*k)=6*k+2*(c*k) := by ring
          have hright : k*(3+c)=3*k+c*k := by ring
          rw [hk,hright] at hmul
          rw [hleft] at hbatched
          omega
        · have hk : half=k+1 := by omega
          have hleft : (3+c)*(2*k+1)=6*k+2*(c*k)+3+c := by ring
          have hright : (k+1)*(3+c)=3*k+c*k+3+c := by ring
          rw [hk,hright] at hmul
          rw [hleft] at hbatched
          omega
      rcases (by omega : b=0 ∨ b=1 ∨ b=2) with rfl | rfl | rfl
      · omega
      · omega
      · omega

end CudaForge.HalvedRefills
