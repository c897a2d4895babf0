import Mathlib.Tactic

/-!
# Runs of labelled transition systems

A machine has start states and labelled steps. What every start state has
and every step keeps holds in every reached state. A guard restricts the
steps of a machine to those whose source state and label meet it.
-/

namespace CudaForge.TransitionRuns

/-- Start states and labelled steps. -/
structure Machine (σ α : Type) where
  /-- Where a run may start. -/
  starts : σ → Prop
  /-- What one labelled step may do. -/
  steps : σ → α → σ → Prop

namespace Machine

variable {σ α : Type} {m : Machine σ α} {s t : σ}

/-- The states some run reaches. -/
inductive Reaches (m : Machine σ α) : σ → Prop
  | start {s : σ} (hs : m.starts s) : Reaches m s
  | step {s t : σ} {a : α} (hs : Reaches m s) (ht : m.steps s a t) : Reaches m t

/-- The invariant rule. -/
theorem Reaches.invariant {P : σ → Prop} (h : m.Reaches s) (hstart : ∀ s, m.starts s → P s)
    (hstep : ∀ s a t, P s → m.steps s a t → P t) : P s := by
  induction h with
  | start hs => exact hstart _ hs
  | step _ ht ih => exact hstep _ _ _ ih ht

/-- The machine restricted to steps that meet a guard on the state before
the step and its label. -/
def guarded (m : Machine σ α) (guard : σ → α → Prop) : Machine σ α where
  starts := m.starts
  steps s a t := guard s a ∧ m.steps s a t

/-- What a guarded machine reaches the machine reaches. -/
theorem Reaches.of_guarded {guard : σ → α → Prop} (h : (m.guarded guard).Reaches s) :
    m.Reaches s :=
  h.invariant (fun _ hs => .start hs) (fun _ _ _ hs ht => .step hs ht.2)

/-- A guard that every step meets restricts nothing. -/
theorem Reaches.to_guarded {guard : σ → α → Prop} (h : m.Reaches s)
    (hg : ∀ s a, guard s a) : (m.guarded guard).Reaches s :=
  h.invariant (fun _ hs => .start hs) (fun _ _ _ hs ht => .step hs ⟨hg _ _,ht⟩)

/-- The simulation rule: when every step of one machine is followed by some
steps of another, a related state of the other is reached. -/
theorem Reaches.simulates {τ β : Type} {n : Machine τ β} {R : σ → τ → Prop} (h : m.Reaches s)
    (hstart : ∀ s, m.starts s → ∃ t, n.Reaches t ∧ R s t)
    (hstep : ∀ s a s' t, m.Reaches s → m.steps s a s' → n.Reaches t → R s t →
      ∃ t', n.Reaches t' ∧ R s' t') : ∃ t, n.Reaches t ∧ R s t := by
  induction h with
  | start hs => exact hstart _ hs
  | step hs ht ih =>
    obtain ⟨t,hr,hR⟩ := ih
    exact hstep _ _ _ t hs ht hr hR

/-- A sequence of labels, each of which meets the guard and can be taken. -/
def replay (step : σ → α → Option σ) (guard : σ → α → Bool) : List α → σ → Option σ
  | [],s => some s
  | a::rest,s => if guard s a then (step s a).bind (replay step guard rest) else none

/-- A replayed sequence of labels is a guarded run. -/
theorem Reaches.replay {step : σ → α → Option σ} {guard : σ → α → Bool}
    (hsteps : ∀ s a t, step s a=some t → m.steps s a t) (labels : List α) :
    ∀ {s t : σ}, (m.guarded (fun s a => guard s a=true)).Reaches s →
      Machine.replay step guard labels s=some t →
        (m.guarded (fun s a => guard s a=true)).Reaches t := by
  induction labels with
  | nil =>
    intro s t h ht
    exact Option.some.inj ht ▸ h
  | cons a rest ih =>
    intro s t h ht
    obtain ⟨hg,hb⟩ := Option.ite_none_right_eq_some.mp ht
    obtain ⟨u,hu,hr⟩ := Option.bind_eq_some_iff.mp hb
    exact ih (.step h ⟨hg,hsteps s a u hu⟩) hr

/-- A sequence of labels that can be replayed ends in a state that the run
reaches and of which what is evaluated holds. -/
theorem Reaches.replayed {step : σ → α → Option σ} (guard : σ → α → Bool) {s : σ}
    (hsteps : ∀ s a t, step s a=some t → m.steps s a t) (labels : List α)
    (hs : (m.guarded (fun s a => guard s a=true)).Reaches s) {P : σ → Prop} [DecidablePred P]
    (h : (Machine.replay step guard labels s).any (fun t => decide (P t))=true) :
    ∃ t, (m.guarded (fun s a => guard s a=true)).Reaches t ∧ P t := by
  obtain ⟨t,ht,hp⟩ := (Option.any_eq_true _ _).mp h
  exact ⟨t,hs.replay hsteps labels ht,of_decide_eq_true hp⟩

/-- A guard may be read off its decision. -/
theorem guarded_decide (m : Machine σ α) (guard : σ → α → Prop)
    [decides : ∀ s a, Decidable (guard s a)] :
    m.guarded (fun s a => decide (guard s a)=true)=m.guarded guard :=
  congrArg m.guarded (funext fun _ => funext fun _ => propext decide_eq_true_iff)

end Machine

end CudaForge.TransitionRuns
