import CudaForge.BarrierPrograms

/-!
# Sums by halving

A block keeps a value for each of its threads and adds them up in rounds: in a
round the lower half of the threads that are left each add the value of the
thread as far above them as there are such threads. Whatever the order of the
threads in a round, the first slot ends with the sum of them all.
-/

namespace CudaForge.HalvingTrees

open BarrierPrograms Finset

variable {M R : Type} [AddCommMonoid M]

/-- One round of a thread: it adds the value half the way up to its own. -/
def halve (half thread : ℕ) : Stage R ℕ M := fun registers tile =>
  (registers,if thread<half then [(thread,tile thread+tile (thread+half))] else [])

/-- The distances of the rounds, for at most so many of them. -/
def halvings : ℕ → ℕ → List ℕ
  | 0,_ => []
  | turns+1,half => if 0<half then half::halvings turns (half/2) else []

/-- A round of distance zero does not take place. -/
theorem halvings_zero (turns : ℕ) : halvings turns 0=[] := by
  cases turns with
  | zero => rfl
  | succ turns => exact if_neg (Nat.lt_irrefl 0)

section Rounds

variable {half thread slot : ℕ} {order : List ℕ} {s : BlockState ℕ R ℕ M}

/-- A thread stores to its own slot, if it is in the lower half. -/
theorem mem_stores {store : ℕ×M} : store∈storesOf (halve half) s thread ↔
    thread<half ∧ store=(thread,s.memory thread+s.memory (thread+half)) := by
  unfold storesOf halve
  dsimp only
  split
  · next hlt => exact List.mem_singleton.trans (and_iff_right hlt).symm
  · next hge => exact iff_of_false List.not_mem_nil (fun h => hge h.1)

/-- The slots stored to are those of the lower half. -/
theorem mem_slots : slot∈(storesOf (halve half) s thread).map Prod.fst ↔
    thread<half ∧ slot=thread := by
  rw [List.mem_map]
  constructor
  · rintro ⟨store,hm,rfl⟩
    obtain ⟨hlt,rfl⟩ := mem_stores.mp hm
    exact ⟨hlt,rfl⟩
  · rintro ⟨hlt,rfl⟩
    exact ⟨_,mem_stores.mpr ⟨hlt,rfl⟩,rfl⟩

/-- A thread reads its own slot and one that nobody stores to. -/
theorem halve_apart : Apart (halve half) order s := by
  intro thread _ memory hsame
  unfold halve
  by_cases hlt : thread<half
  · have hown : memory thread=s.memory thread :=
      hsame thread (fun other _ hne hm => hne (mem_slots.mp hm).2.symm)
    have habove : memory (thread+half)=s.memory (thread+half) := by
      refine hsame _ (fun other _ _ hm => ?_)
      obtain ⟨hother,he⟩ := mem_slots.mp hm
      omega
    rw [hown,habove]
  · rw [if_neg hlt,if_neg hlt]

/-- What a slot holds behind a round. -/
theorem halve_memory (hn : order.Nodup) (hall : ∀ slot < half, slot∈order) (slot : ℕ) :
    (runStage (halve half) order s).memory slot=
      if slot<half then s.memory slot+s.memory (slot+half) else s.memory slot := by
  rw [runStage_memory hn halve_apart]
  split
  · next hlt =>
    refine storeAll_value ?_ ?_
    · refine List.mem_map.mpr ⟨(slot,s.memory slot+s.memory (slot+half)),?_,rfl⟩
      exact List.mem_flatMap.mpr ⟨slot,hall slot hlt,mem_stores.mpr ⟨hlt,rfl⟩⟩
    · intro store hm he
      obtain ⟨thread,_,hstore⟩ := List.mem_flatMap.mp hm
      obtain ⟨_,rfl⟩ := mem_stores.mp hstore
      obtain rfl : thread=slot := he
      rfl
  · next hge =>
    refine storeAll_other (fun hm => hge ?_)
    obtain ⟨store,hin,rfl⟩ := List.mem_map.mp hm
    obtain ⟨thread,_,hstore⟩ := List.mem_flatMap.mp hin
    obtain ⟨hlt,rfl⟩ := mem_stores.mp hstore
    exact hlt

/-- A round leaves the registers as they are. -/
theorem halve_registers (hn : order.Nodup) :
    (runStage (halve half) order s).registers=s.registers := by
  rw [runStage_eq hn halve_apart]
  funext thread
  exact ite_self (s.registers thread)

end Rounds

section Trees

variable {order : ℕ → List ℕ} {round turns : ℕ} {s : BlockState ℕ R ℕ M}

/-- Rounds that halve a power of two leave the sum in the first slot, and the
registers as they were. -/
theorem runStages_halvings (hn : ∀ round, (order round).Nodup) (k : ℕ)
    (hall : ∀ round, ∀ slot < 2^k, slot∈order round) (ht : k<turns) :
    (runStages order round ((halvings turns (2^k)).map halve) s).memory 0=
        ∑ slot ∈ range (2^(k+1)),s.memory slot ∧
      (runStages order round ((halvings turns (2^k)).map halve) s).registers=s.registers := by
  induction k generalizing turns round s with
  | zero =>
    obtain ⟨turns,rfl⟩ := Nat.exists_eq_succ_of_ne_zero (Nat.ne_of_gt ht)
    have hlist : halvings turns.succ (2^0)=[1] := by
      rw [halvings,pow_zero,if_pos Nat.one_pos,Nat.div_eq_of_lt Nat.one_lt_two,halvings_zero]
    rw [hlist,List.map_singleton,runStages,runStages]
    refine ⟨?_,halve_registers (hn round)⟩
    rw [halve_memory (hn round) (by rw [←pow_zero 2]; exact hall round),if_pos Nat.one_pos,
      Nat.zero_add,pow_one,sum_range_succ,sum_range_one]
  | succ k ih =>
    obtain ⟨turns,rfl⟩ := Nat.exists_eq_succ_of_ne_zero (Nat.ne_of_gt (Nat.zero_lt_of_lt ht))
    have hhalf : 2^(k+1)/2=2^k := by rw [pow_succ,Nat.mul_div_cancel _ Nat.two_pos]
    have hdouble : 2^(k+1+1)=2^(k+1)+2^(k+1) := by rw [pow_succ,Nat.mul_two]
    rw [halvings,if_pos (Nat.two_pow_pos (k+1)),hhalf,List.map_cons,runStages]
    have hrest := @ih (round+1) turns (runStage (halve (2^(k+1))) (order round) s)
      (fun round slot hlt => hall round slot (hlt.trans (Nat.pow_lt_pow_succ Nat.one_lt_two)))
      (Nat.lt_of_succ_lt_succ ht)
    refine ⟨hrest.1.trans ?_,hrest.2.trans (halve_registers (hn round))⟩
    rw [hdouble,sum_range_add,←sum_add_distrib]
    refine sum_congr rfl (fun slot hm => ?_)
    rw [halve_memory (hn round) (hall round),if_pos (mem_range.mp hm),Nat.add_comm slot]

end Trees

end CudaForge.HalvingTrees
