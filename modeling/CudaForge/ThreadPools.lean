import Mathlib.Tactic

/-!
# Counting threads by what they are doing

A pool is a list with one entry for every thread, which says where the
thread stands. One thread moves on at a time, or a broadcast moves all of
them at once. How many threads stand somewhere changes by what the mover
left and what it entered.
-/

namespace CudaForge.ThreadPools

variable {φ : Type} {pool : List φ} {thread other : ℕ} {old new : φ} {p q : φ → Bool}

/-- How many threads stand where `p` says. -/
def tally (p : φ → Bool) (pool : List φ) : ℕ := pool.countP p

/-- One for a thread that stands where `p` says, nothing for another. -/
def share (p : φ → Bool) (phase : φ) : ℕ := if p phase then 1 else 0

theorem share_pos (h : p old=true) : share p old=1 := if_pos h

theorem share_neg (h : p old=false) : share p old=0 := if_neg (Bool.eq_false_iff.mp h)

/-- A thread that moves leaves one place and enters another. -/
theorem tally_set (p : φ → Bool) (new : φ) (h : pool[thread]?=some old) :
    tally p (pool.set thread new)+share p old=tally p pool+share p new := by
  induction pool generalizing thread with
  | nil => exact absurd h (by simp only [List.getElem?_nil,reduceCtorEq,not_false_eq_true])
  | cons head rest ih =>
    cases thread with
    | zero =>
      rw [List.getElem?_cons_zero] at h
      rw [List.set_cons_zero,←Option.some.inj h]
      simp only [tally,share,List.countP_cons]
      omega
    | succ thread =>
      rw [List.getElem?_cons_succ] at h
      have hr := ih h
      rw [List.set_cons_succ]
      simp only [tally,share,List.countP_cons] at hr ⊢
      omega

/-- Other threads stay where they are. -/
theorem getElem?_move (h : thread≠other) :
    (pool.set thread new)[other]?=pool[other]? := List.getElem?_set_ne h

/-- A thread that stands somewhere is counted there. -/
theorem tally_pos (h : pool[thread]?=some old) (hp : p old=true) : 0 < tally p pool :=
  List.countP_pos_iff.mpr ⟨old,List.mem_of_getElem? h,hp⟩

/-- Where threads are counted some thread stands. -/
theorem exists_of_tally (h : 0 < tally p pool) : ∃ phase∈pool, p phase=true :=
  List.countP_pos_iff.mp h

/-- Where nobody is counted nobody stands. -/
theorem tally_zero : tally p pool=0 ↔ ∀ phase∈pool, p phase=false := by
  rw [tally,List.countP_eq_zero]
  simp only [Bool.not_eq_true]

/-- Threads that all start in one place. -/
theorem tally_replicate (n : ℕ) (h : p old=false) : tally p (List.replicate n old)=0 :=
  tally_zero.mpr (fun _ hm => List.eq_of_mem_replicate hm ▸ h)

/-- A broadcast that leaves `p` alone leaves its count alone. -/
theorem tally_map_same (pool : List φ) (f : φ → φ) (h : ∀ phase, p (f phase)=p phase) :
    tally p (pool.map f)=tally p pool := by
  rw [tally,List.countP_map]
  exact congrArg (fun p => pool.countP p) (funext h)

/-- A broadcast that lets nobody stay empties the place. -/
theorem tally_map_zero (f : φ → φ) (h : ∀ phase, p (f phase)=false) :
    tally p (pool.map f)=0 :=
  tally_zero.mpr (fun _ hm => let ⟨phase,_,hf⟩ := List.mem_map.mp hm; hf ▸ h phase)

/-- What all threads of a pool hold together, each weighed by where it stands. -/
def weigh (w : φ → ℕ) (pool : List φ) : ℕ := (pool.map w).sum

/-- A thread that moves puts down what it held and takes up what it holds. -/
theorem weigh_set (w : φ → ℕ) (new : φ) (h : pool[thread]?=some old) :
    weigh w (pool.set thread new)+w old=weigh w pool+w new := by
  induction pool generalizing thread with
  | nil => exact absurd h (by simp only [List.getElem?_nil,reduceCtorEq,not_false_eq_true])
  | cons head rest ih =>
    cases thread with
    | zero =>
      rw [List.getElem?_cons_zero] at h
      rw [List.set_cons_zero,←Option.some.inj h]
      simp only [weigh,List.map_cons,List.sum_cons]
      omega
    | succ thread =>
      rw [List.getElem?_cons_succ] at h
      have hr := ih h
      rw [List.set_cons_succ]
      simp only [weigh,List.map_cons,List.sum_cons] at hr ⊢
      omega

/-- A thread that moves with what it holds changes nothing. -/
theorem weigh_set_same {w : φ → ℕ} (h : pool[thread]?=some old) (hw : w new=w old) :
    weigh w (pool.set thread new)=weigh w pool := by
  have hs := weigh_set w new h
  omega

/-- A thread that joins the pool brings what it holds. -/
theorem weigh_snoc (w : φ → ℕ) (pool : List φ) (new : φ) :
    weigh w (pool++[new])=weigh w pool+w new := by
  rw [weigh,List.map_append,List.sum_append,List.map_singleton,List.sum_singleton,weigh]

/-- Something held is held by some thread. -/
theorem exists_of_weigh {w : φ → ℕ} (h : 0 < weigh w pool) : ∃ phase∈pool, 0 < w phase := by
  by_contra hn
  have hz : ∀ n∈pool.map w, n=0 := by
    intro n hm
    obtain ⟨phase,hp,rfl⟩ := List.mem_map.mp hm
    exact Nat.eq_zero_of_not_pos (fun hw => hn ⟨phase,hp,hw⟩)
  rw [weigh,List.sum_eq_zero hz] at h
  exact Nat.lt_irrefl 0 h

/-- A pool in which nobody holds anything. -/
theorem weigh_zero {w : φ → ℕ} (h : ∀ phase∈pool, w phase=0) : weigh w pool=0 := by
  refine List.sum_eq_zero (fun n hm => ?_)
  obtain ⟨phase,hp,rfl⟩ := List.mem_map.mp hm
  exact h phase hp

/-- The threads of a pool that a new one joined. -/
theorem getElem?_snoc {phase : φ} (h : (pool++[new])[thread]?=some phase) :
    pool[thread]?=some phase ∨ thread=pool.length ∧ phase=new := by
  have hl := (List.getElem?_eq_some_iff.mp h).1
  rw [List.length_append,List.length_singleton] at hl
  by_cases ht : thread < pool.length
  · rw [List.getElem?_append_left ht] at h
    exact Or.inl h
  · have he : thread=pool.length := by omega
    rw [he,List.getElem?_concat_length] at h
    exact Or.inr ⟨he,(Option.some.inj h).symm⟩

/-- The threads of a pool in which one moved. -/
theorem getElem?_set_cases {phase : φ} (h : (pool.set thread new)[other]?=some phase) :
    thread=other ∧ phase=new ∨ thread≠other ∧ pool[other]?=some phase := by
  by_cases he : thread=other
  · have hl := (List.getElem?_eq_some_iff.mp h).1
    rw [List.length_set] at hl
    rw [he,List.getElem?_set_self hl] at h
    exact Or.inl ⟨he,(Option.some.inj h).symm⟩
  · rw [List.getElem?_set_ne he] at h
    exact Or.inr ⟨he,h⟩

/-- The places of a pool in which one thread moved. -/
theorem mem_set_cases {phase : φ} (h : phase∈pool.set thread new) : phase=new ∨ phase∈pool := by
  obtain ⟨i,hi⟩ := List.getElem?_of_mem h
  rcases getElem?_set_cases hi with ⟨_,he⟩ | ⟨_,hp⟩
  · exact Or.inl he
  · exact Or.inr (List.mem_of_getElem? hp)

end CudaForge.ThreadPools
