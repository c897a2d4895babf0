import Mathlib.Algebra.BigOperators.Intervals
import Mathlib.Data.List.Infix
import Mathlib.Tactic

/-!
# Scanning text line by line

A substring without the separator lies in one part of a joined text, and one without
the characters that are dropped survives dropping them at an end. A flag that is set
and cleared on the way, and a walk that is not let below zero, are described by the
steps before.
-/

namespace CudaForge.TextScans

section Substrings

variable {α : Type}

/-- A prefix without the separator ends before it. -/
theorem prefix_separated_iff {pattern : List α} {sep : α} (hsep : sep ∉ pattern)
    (left right : List α) : pattern <+: left++sep::right ↔ pattern <+: left := by
  constructor
  · intro h
    induction left generalizing pattern with
    | nil =>
      rcases List.prefix_cons_iff.mp h with rfl | hcons
      · exact List.nil_prefix
      · obtain ⟨rest,rfl,-⟩ := hcons
        exact absurd List.mem_cons_self hsep
    | cons x left ih =>
      rcases List.prefix_cons_iff.mp h with rfl | hcons
      · exact List.nil_prefix
      · obtain ⟨rest,rfl,hrest⟩ := hcons
        exact (List.prefix_cons_inj x).mpr
          (ih (fun hm => hsep (List.mem_cons_of_mem x hm)) hrest)
  · intro h
    exact h.trans (List.prefix_append left (sep::right))

/-- A substring without the separator lies on one side of it. -/
theorem infix_separated_iff {pattern : List α} {sep : α} (hne : pattern≠[])
    (hsep : sep ∉ pattern) (left right : List α) :
    pattern <:+: left++sep::right ↔ pattern <:+: left ∨ pattern <:+: right := by
  induction left with
  | nil =>
    rw [List.nil_append,List.infix_cons_iff,List.infix_nil]
    constructor
    · intro h
      rcases h with h | h
      · have hnil := (prefix_separated_iff hsep [] right).mp h
        exact absurd (List.prefix_nil.mp hnil) hne
      · exact Or.inr h
    · intro h
      exact Or.inr (h.resolve_left hne)
  | cons x left ih =>
    rw [List.cons_append,List.infix_cons_iff,←List.cons_append,prefix_separated_iff hsep,ih,
      List.infix_cons_iff,or_assoc]

/-- A substring without the separator lies in one of the parts that were joined. -/
theorem infix_intercalate_iff {pattern : List α} {sep : α} (hne : pattern≠[])
    (hsep : sep ∉ pattern) (parts : List (List α)) :
    pattern <:+: [sep].intercalate parts ↔ ∃ part∈parts, pattern <:+: part := by
  induction parts with
  | nil =>
    constructor
    · intro h
      exact absurd (List.infix_nil.mp h) hne
    · intro h
      obtain ⟨part,hm,-⟩ := h
      exact absurd hm List.not_mem_nil
  | cons first parts ih =>
    cases parts with
    | nil => simp only [List.intercalate_singleton,List.mem_singleton,exists_eq_left]
    | cons second parts =>
      have hjoin : [sep].intercalate (first::second::parts)=
          first++sep::[sep].intercalate (second::parts) := by
        simp only [List.intercalate_cons_cons,List.append_assoc,List.singleton_append]
      rw [hjoin,infix_separated_iff hne hsep,ih]
      exact (List.exists_mem_cons_iff _ _ _).symm

/-- Dropping at the front leaves a substring that does not start with what is dropped. -/
theorem infix_dropWhile_iff {drops : α → Bool} {pattern : List α}
    (hhead : ∃ c, pattern.head?=some c ∧ drops c=false) (text : List α) :
    pattern <:+: text.dropWhile drops ↔ pattern <:+: text := by
  obtain ⟨c,hc,hkeep⟩ := hhead
  induction text with
  | nil => rw [List.dropWhile_nil]
  | cons x text ih =>
    cases hx : drops x with
    | false => rw [List.dropWhile_cons_of_neg (by rw [hx]; exact Bool.false_ne_true)]
    | true =>
      rw [List.dropWhile_cons_of_pos hx,ih,List.infix_cons_iff]
      refine ⟨Or.inr,fun h => h.resolve_left fun hprefix => ?_⟩
      rcases List.prefix_cons_iff.mp hprefix with rfl | hcons
      · exact absurd hc (by simp only [List.head?_nil,reduceCtorEq,not_false_eq_true])
      · obtain ⟨rest,rfl,-⟩ := hcons
        rw [Option.some.inj hc,hkeep] at hx
        exact Bool.false_ne_true hx

end Substrings

/-- A flag after some steps: each may set it, and one that clears it wins. -/
def latched (sets clears : ℕ → Bool) : ℕ → Bool
  | 0 => false
  | k+1 => !clears k && (sets k || latched sets clears k)

/-- The flag is up exactly when a step set it and none since cleared it. -/
theorem latched_iff (sets clears : ℕ → Bool) (i : ℕ) : latched sets clears i=true ↔
    ∃ j < i, sets j=true ∧ ∀ k, j ≤ k → k < i → clears k=false := by
  induction i with
  | zero => simp only [latched,Bool.false_eq_true,Nat.not_lt_zero,false_and,exists_false]
  | succ i ih =>
    rw [latched,Bool.and_eq_true,Bool.not_eq_true',Bool.or_eq_true,ih]
    constructor
    · intro h
      obtain ⟨hkeep,hset | ⟨j,hj,hset,hclear⟩⟩ := h
      · refine ⟨i,Nat.lt_succ_self i,hset,fun k hle hlt => ?_⟩
        rw [Nat.le_antisymm (Nat.lt_succ_iff.mp hlt) hle]
        exact hkeep
      · refine ⟨j,Nat.lt_succ_of_lt hj,hset,fun k hle hlt => ?_⟩
        rcases Nat.lt_succ_iff_lt_or_eq.mp hlt with hk | rfl
        · exact hclear k hle hk
        · exact hkeep
    · intro h
      obtain ⟨j,hj,hset,hclear⟩ := h
      refine ⟨hclear i (Nat.lt_succ_iff.mp hj) (Nat.lt_succ_self i),?_⟩
      rcases Nat.lt_succ_iff_lt_or_eq.mp hj with hlt | rfl
      · exact Or.inr ⟨j,hlt,hset,fun k hle hk => hclear k hle (Nat.lt_succ_of_lt hk)⟩
      · exact Or.inl hset

/-- A walk that is not let below zero. -/
def clamped (x : ℕ → ℤ) : ℕ → ℤ
  | 0 => 0
  | k+1 => max 0 (clamped x k+x k)

/-- The walk stays below a bound exactly when every run of steps up to here adds up to
no more. -/
theorem clamped_le_iff (x : ℕ → ℤ) (k : ℕ) (bound : ℤ) : clamped x k ≤ bound ↔
    0 ≤ bound ∧ ∀ m ≤ k, ∑ i∈Finset.Ico m k, x i ≤ bound := by
  induction k generalizing bound with
  | zero =>
    refine ⟨fun h => ⟨h,fun m _ => ?_⟩,And.left⟩
    rw [Finset.Ico_eq_empty (Nat.not_lt_zero m),Finset.sum_empty]
    exact h
  | succ k ih =>
    rw [clamped,max_le_iff,←le_sub_iff_add_le,ih]
    constructor
    · intro h
      obtain ⟨hpos,-,hsum⟩ := h
      refine ⟨hpos,fun m hm => ?_⟩
      rcases Nat.le_succ_iff.mp hm with hle | rfl
      · rw [Finset.sum_Ico_succ_top hle]
        exact le_sub_iff_add_le.mp (hsum m hle)
      · rw [Finset.Ico_self,Finset.sum_empty]
        exact hpos
    · intro h
      obtain ⟨hpos,hsum⟩ := h
      have hstep : ∀ m ≤ k, ∑ i∈Finset.Ico m k, x i ≤ bound-x k := by
        intro m hm
        have h := hsum m (Nat.le_succ_of_le hm)
        rw [Finset.sum_Ico_succ_top hm] at h
        exact le_sub_iff_add_le.mpr h
      refine ⟨hpos,?_,hstep⟩
      have h := hstep k le_rfl
      rwa [Finset.Ico_self,Finset.sum_empty] at h

/-- The walk is at zero exactly when no run of steps up to here adds up to more. -/
theorem clamped_eq_zero_iff (x : ℕ → ℤ) (k : ℕ) : clamped x k=0 ↔
    ∀ m ≤ k, ∑ i∈Finset.Ico m k, x i ≤ 0 := by
  have hpos : 0 ≤ clamped x k := by
    cases k with
    | zero => exact le_rfl
    | succ k => exact le_max_left _ _
  constructor
  · intro h
    exact ((clamped_le_iff x k 0).mp h.le).2
  · intro h
    exact le_antisymm ((clamped_le_iff x k 0).mpr ⟨le_rfl,h⟩) hpos

end CudaForge.TextScans
