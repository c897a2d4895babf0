import Mathlib.Tactic

/-!
# Loops that a break or an exception interrupts

A loop over a list whose body goes on, breaks or raises. What its body keeps
from one turn to the next holds of the state in which it ends, together with
the part of the list that was consumed.
-/

namespace CudaForge.InterruptedLoops

/-- How a turn or a whole loop ends. -/
inductive Flow (ε σ : Type) where
  /-- Normally. -/
  | next (state : σ)
  /-- By a break. -/
  | stop (state : σ)
  /-- By an exception, in the state that it leaves behind. -/
  | raised (error : ε) (state : σ)

namespace Flow

variable {ε σ : Type}

/-- The state left behind. -/
def state : Flow ε σ → σ
  | .next s => s
  | .stop s => s
  | .raised _ s => s

/-- One condition on the state for each ending. -/
def Meets (P S : σ → Prop) (R : ε → σ → Prop) : Flow ε σ → Prop
  | .next s => P s
  | .stop s => S s
  | .raised error s => R error s

/-- Conditions may be weakened. -/
theorem Meets.imp {P P' S S' : σ → Prop} {R R' : ε → σ → Prop} {flow : Flow ε σ}
    (h : flow.Meets P S R) (hP : ∀ s, P s → P' s) (hS : ∀ s, S s → S' s)
    (hR : ∀ error s, R error s → R' error s) : flow.Meets P' S' R' := by
  cases flow with
  | next s => exact hP s h
  | stop s => exact hS s h
  | raised error s => exact hR error s h

/-- A condition on the state left behind, however a loop ends. -/
theorem Meets.state {P : σ → Prop} {flow : Flow ε σ} (h : flow.Meets P P (fun _ => P)) :
    P flow.state := by
  cases flow <;> exact h

end Flow

variable {ε σ α : Type}

/-- A `for` loop. -/
def loop (body : σ → α → Flow ε σ) : List α → σ → Flow ε σ
  | [],s => .next s
  | x::xs,s =>
    match body s x with
    | .next s => loop body xs s
    | .stop s => .stop s
    | .raised error s => .raised error s

/-- The loop rule. -/
theorem loop_meets (body : σ → α → Flow ε σ) {P S : List α → σ → Prop}
    {R : List α → ε → σ → Prop}
    (hstep : ∀ done s x, P done s →
      (body s x).Meets (P (done++[x])) (S (done++[x])) (R (done++[x])))
    (xs : List α) {done : List α} {s : σ} (h : P done s) :
    (loop body xs s).Meets (P (done++xs))
      (fun s => ∃ taken, taken<+:xs ∧ S (done++taken) s)
      (fun error s => ∃ taken, taken<+:xs ∧ R (done++taken) error s) := by
  induction xs generalizing done s with
  | nil =>
    rw [List.append_nil]
    exact h
  | cons x xs ih =>
    have hx := hstep done s x h
    rw [loop]
    cases hb : body s x with
    | next t =>
      rw [hb] at hx
      refine (ih hx).imp ?_ ?_ ?_
      · intro u hu
        rw [List.append_assoc] at hu
        exact hu
      · rintro u ⟨taken,hp,hu⟩
        refine ⟨x::taken,(List.prefix_cons_inj x).mpr hp,?_⟩
        rw [List.append_assoc] at hu
        exact hu
      · rintro error u ⟨taken,hp,hu⟩
        refine ⟨x::taken,(List.prefix_cons_inj x).mpr hp,?_⟩
        rw [List.append_assoc] at hu
        exact hu
    | stop t =>
      rw [hb] at hx
      exact ⟨[x],⟨xs,rfl⟩,hx⟩
    | raised error t =>
      rw [hb] at hx
      exact ⟨[x],⟨xs,rfl⟩,hx⟩

end CudaForge.InterruptedLoops
