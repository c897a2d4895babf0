import CudaForge.TransitionRuns

/-!
# Counters beside a transition system

Some steps of a system leave recordings to be made in a set of counters. A
recording is a step of its own: it comes after the step that leaves it, and in
any order with other recordings and steps. When each recording adds its weight
to a value of the counters, that value and the weights still owed make up what
the state of the system says is due.
-/

namespace CudaForge.Metering

open TransitionRuns

variable {σ α ρ κ M : Type}

/-- A state of the system with the counters beside it. -/
structure Metered (σ κ ρ : Type) where
  /-- Where the system is. -/
  state : σ
  /-- What was recorded. -/
  counters : κ
  /-- What is still to be recorded. -/
  owed : List ρ := []

/-- A step of the system, or one of the recordings that are owed. -/
inductive MeterStep (α : Type) where
  | act (label : α)
  | record (index : ℕ)

/-- Counters, and what a step leaves to be recorded in them. -/
structure Meter (σ α κ ρ : Type) where
  /-- Before anything is recorded. -/
  zero : κ
  /-- What a recording does. -/
  record : κ → ρ → κ
  /-- What a step from one state to another leaves. -/
  owes : σ → α → σ → List ρ

variable {starts : σ → Prop} {step : σ → α → Option σ} {meter : Meter σ α κ ρ}
  {s t : Metered σ κ ρ}

/-- A step leaves its recordings behind those that are owed already. -/
def Metered.acted (meter : Meter σ α κ ρ) (s : Metered σ κ ρ) (label : α) (state : σ) :
    Metered σ κ ρ :=
  {s with state := state, owed := s.owed++meter.owes s.state label state}

/-- A recording that is owed is made. -/
def Metered.recorded (meter : Meter σ α κ ρ) (s : Metered σ κ ρ) (index : ℕ) (recording : ρ) :
    Metered σ κ ρ :=
  {s with counters := meter.record s.counters recording, owed := s.owed.eraseIdx index}

/-- What a step does, if it can be taken now. -/
def Metered.next (step : σ → α → Option σ) (meter : Meter σ α κ ρ) (s : Metered σ κ ρ) :
    MeterStep α → Option (Metered σ κ ρ)
  | .act label => (step s.state label).map (s.acted meter label)
  | .record index => s.owed[index]?.map (s.recorded meter index)

/-- The system without its counters. -/
def system (starts : σ → Prop) (step : σ → α → Option σ) : Machine σ α where
  starts := starts
  steps s a t := step s a=some t

/-- The system with its counters. -/
def metered (starts : σ → Prop) (step : σ → α → Option σ) (meter : Meter σ α κ ρ) :
    Machine (Metered σ κ ρ) (MeterStep α) where
  starts s := starts s.state ∧ s.counters=meter.zero ∧ s.owed=[]
  steps s a t := s.next step meter a=some t

/-- The counters do not hold the system up or lead it anywhere. -/
theorem reaches_state (h : (metered starts step meter).Reaches s) :
    (system starts step).Reaches s.state := by
  refine h.invariant (P := fun s => (system starts step).Reaches s.state) ?_ ?_
  · intro s hs
    exact .start hs.1
  · intro s a t hr ht
    cases a with
    | act label =>
      obtain ⟨state,hstate,rfl⟩ := Option.map_eq_some_iff.mp ht
      exact .step hr hstate
    | record index =>
      obtain ⟨recording,_,rfl⟩ := Option.map_eq_some_iff.mp ht
      exact hr

variable [AddCommMonoid M]

/-- Taking one entry out of a sum. -/
theorem sum_eraseIdx (weight : ρ → M) {owed : List ρ} {index : ℕ} {recording : ρ}
    (h : owed[index]?=some recording) :
    (owed.map weight).sum=weight recording+((owed.eraseIdx index).map weight).sum := by
  obtain ⟨hl,rfl⟩ := List.getElem?_eq_some_iff.mp h
  have hp := ((List.getElem_cons_eraseIdx_perm hl).map weight).sum_eq
  rw [←hp,List.map_cons,List.sum_cons]

/-- The audit rule: what is recorded and what is owed together make up what is
due, when a start state has what the fresh counters say and each step moves
what is due by the weights it leaves. -/
theorem audit (value : κ → M) (weight : ρ → M) (due : σ → M)
    (hrecord : ∀ counters recording, value (meter.record counters recording)=
      value counters+weight recording)
    (hstart : ∀ state, starts state → due state=value meter.zero)
    (hstep : ∀ state label state', (system starts step).Reaches state →
      step state label=some state' →
      due state'=due state+((meter.owes state label state').map weight).sum)
    (h : (metered starts step meter).Reaches s) :
    value s.counters+(s.owed.map weight).sum=due s.state := by
  have hi : (system starts step).Reaches s.state ∧
      value s.counters+(s.owed.map weight).sum=due s.state := by
    refine h.invariant (P := fun s => (system starts step).Reaches s.state ∧
      value s.counters+(s.owed.map weight).sum=due s.state) ?_ ?_
    · rintro s ⟨hs,hc,ho⟩
      refine ⟨.start hs,?_⟩
      rw [hc,ho,hstart _ hs,List.map_nil,List.sum_nil,add_zero]
    · rintro s a t ⟨hr,hd⟩ ht
      cases a with
      | act label =>
        obtain ⟨state,hstate,rfl⟩ := Option.map_eq_some_iff.mp ht
        refine ⟨.step hr hstate,?_⟩
        have hdue := hstep _ _ _ hr hstate
        rw [←hd] at hdue
        simp only [Metered.acted,List.map_append,List.sum_append]
        rw [hdue,add_assoc]
      | record index =>
        obtain ⟨recording,ho,rfl⟩ := Option.map_eq_some_iff.mp ht
        refine ⟨hr,?_⟩
        simp only [Metered.recorded]
        rw [hrecord,add_assoc,←sum_eraseIdx weight ho,hd]
  exact hi.2

/-- Once every recording is made, the counters say what is due. -/
theorem audit_settled (value : κ → M) (weight : ρ → M) (due : σ → M)
    (hrecord : ∀ counters recording, value (meter.record counters recording)=
      value counters+weight recording)
    (hstart : ∀ state, starts state → due state=value meter.zero)
    (hstep : ∀ state label state', (system starts step).Reaches state →
      step state label=some state' →
      due state'=due state+((meter.owes state label state').map weight).sum)
    (h : (metered starts step meter).Reaches s) (ho : s.owed=[]) :
    value s.counters=due s.state := by
  have ha := audit value weight due hrecord hstart hstep h
  rwa [ho,List.map_nil,List.sum_nil,add_zero] at ha

end CudaForge.Metering
