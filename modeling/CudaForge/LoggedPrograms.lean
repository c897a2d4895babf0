import CudaForge.ExceptionState

/-!
# Programs that log what they ask for

A program runs over an outside world and keeps a log of its requests beside
it. Only `record` writes to the log, and a log survives an exception.
`Logs` says that a program adds nothing but good requests, whatever the
world answers, with one rule for each way of building it. `Shadows` says
that a program without a log does the same to the world.
-/

namespace CudaForge.LoggedPrograms

open ExceptionState

variable {ε ω η α β : Type}

/-- A program over a world and a log of requests. -/
abbrev Logged (ε ω η : Type) := EStateM ε (ω×List η)

/-- Write a request down. -/
def record (request : η) : Logged ε ω η PUnit := modify fun s => (s.1,s.2++[request])

/-- Let the world act; the log is out of its reach. -/
def outside (x : EStateM ε ω α) : Logged ε ω η α := fun s =>
  match x s.1 with
  | .ok a w => .ok a (w,s.2)
  | .error e w => .error e (w,s.2)

/-- From any world and any good log, the log left is good, a value handed
back satisfies `Q`, and an exception only happens where `raises` allows it. -/
def Logs (good : η → Prop) (raises : Prop) (x : Logged ε ω η α) (Q : α → Prop) : Prop :=
  ∀ s, (∀ request ∈ s.2, good request) →
    Ends x s (fun a t => (∀ request ∈ t.2, good request) ∧ Q a)
      (fun t => (∀ request ∈ t.2, good request) ∧ raises)

section Rules

variable {good : η → Prop} {raises : Prop} {Q : α → Prop} {R : β → Prop}

theorem logs_pure {a : α} (h : Q a) : Logs good raises (pure a : Logged ε ω η α) Q := by
  intro s hs
  rw [ends_pure]
  exact ⟨hs,h⟩

theorem logs_throw {e : ε} (h : raises) :
    Logs good raises (throw e : Logged ε ω η α) Q := by
  intro s hs
  rw [ends_throw]
  exact ⟨hs,h⟩

/-- Sequencing: what the first program hands back is known to the second. -/
theorem Logs.bind {x : Logged ε ω η α} {f : α → Logged ε ω η β}
    (hx : Logs good raises x Q) (hf : ∀ a, Q a → Logs good raises (f a) R) :
    Logs good raises (x >>= f) R := by
  intro s hs
  rw [ends_bind]
  refine (hx s hs).mono ?_ ?_
  · intro a t ha
    exact hf a ha.2 t ha.1
  · intro t ht
    exact ht

/-- A weaker requirement is met by the same program. -/
theorem Logs.mono {x : Logged ε ω η α} {P : α → Prop} (hx : Logs good raises x P)
    (h : ∀ a, P a → Q a) : Logs good raises x Q := by
  intro s hs
  refine (hx s hs).mono ?_ ?_
  · intro a t ha
    exact ⟨ha.1,h a ha.2⟩
  · intro t ht
    exact ht

/-- A good request may be written down. -/
theorem logs_record {request : η} (h : good request) :
    Logs good raises (record request : Logged ε ω η PUnit) (fun _ => True) := by
  intro s hs
  rw [record,ends_modify]
  refine ⟨?_,trivial⟩
  intro other ho
  rcases List.mem_append.mp ho with ho | ho
  · exact hs other ho
  · rw [List.mem_singleton.mp ho]
    exact h

/-- What is known of the world's answer is known of the program's. -/
theorem logs_outside {x : EStateM ε ω α} (h : ∀ w, Ends x w (fun a _ => Q a) (fun _ => raises)) :
    Logs good raises (outside x : Logged ε ω η α) Q := by
  intro s hs
  have hw := h s.1
  unfold Ends at hw ⊢
  unfold outside
  cases hx : x s.1 with
  | ok a w =>
    rw [hx] at hw
    exact ⟨hs,hw⟩
  | error e w =>
    rw [hx] at hw
    exact ⟨hs,hw⟩

/-- Where an exception is allowed and nothing is asked, any answer will do. -/
theorem logs_answer (x : EStateM ε ω α) (h : raises) (hQ : ∀ a, Q a) :
    Logs good raises (outside x : Logged ε ω η α) Q := by
  apply logs_outside
  intro w
  unfold Ends
  cases x w with
  | ok a w' => exact hQ a
  | error e w' => exact h

/-- A run from an empty log. -/
theorem Logs.run {x : Logged ε ω η α} (hx : Logs good raises x Q) (w : ω) :
    Ends x (w,[]) (fun a t => (∀ request ∈ t.2, good request) ∧ Q a)
      (fun t => (∀ request ∈ t.2, good request) ∧ raises) := by
  apply hx
  intro request hr
  exact absurd hr List.not_mem_nil

end Rules

/-- A run that returns has written certain requests behind the log it found, and they
go with the value handed back. -/
def Writes (x : Logged ε ω η α) (R : List η → α → Prop) : Prop :=
  ∀ s, Ends x s (fun a t => ∃ added, t.2=s.2++added ∧ R added a) (fun _ => True)

section Writing

variable {R T : List η → α → Prop} {x : Logged ε ω η α}

theorem writes_pure {a : α} (h : R [] a) : Writes (pure a : Logged ε ω η α) R := by
  intro s
  rw [ends_pure]
  exact ⟨[],(List.append_nil _).symm,h⟩

theorem writes_throw (e : ε) : Writes (throw e : Logged ε ω η α) R := by
  intro s
  rw [ends_throw]
  trivial

/-- What the second program writes stands behind what the first wrote. -/
theorem Writes.bind {f : α → Logged ε ω η β} {S : List η → β → Prop} (hx : Writes x R)
    (hf : ∀ a first, R first a → Writes (f a) (fun second b => S (first++second) b)) :
    Writes (x >>= f) S := by
  intro s
  rw [ends_bind]
  refine (hx s).mono ?_ (fun _ h => h)
  rintro a t ⟨first,ht,hR⟩
  refine (hf a first hR t).mono ?_ (fun _ h => h)
  rintro b u ⟨second,hu,hS⟩
  exact ⟨first++second,by rw [hu,ht,List.append_assoc],hS⟩

/-- A weaker relation holds of the same program. -/
theorem Writes.mono (hx : Writes x R) (h : ∀ added a, R added a → T added a) : Writes x T := by
  intro s
  refine (hx s).mono ?_ (fun _ ht => ht)
  rintro a t ⟨added,ht,hR⟩
  exact ⟨added,ht,h added a hR⟩

theorem writes_record (request : η) :
    Writes (record request : Logged ε ω η PUnit) (fun added _ => added=[request]) := by
  intro s
  rw [record,ends_modify]
  exact ⟨[request],rfl,rfl⟩

theorem writes_outside (x : EStateM ε ω α) :
    Writes (outside x : Logged ε ω η α) (fun added _ => added=[]) := by
  intro s
  unfold Ends outside
  cases x s.1 with
  | ok a w => exact ⟨[],(List.append_nil _).symm,rfl⟩
  | error e w => trivial

/-- A run from an empty log that returns. -/
theorem Writes.run (hx : Writes x R) {w : ω} {a : α} {s : ω×List η}
    (h : x (w,[])=.ok a s) : R s.2 a := by
  have hends := hx (w,[])
  unfold Ends at hends
  rw [h] at hends
  obtain ⟨added,ht,hR⟩ := hends
  rw [ht]
  exact hR

end Writing

/-- What a run leaves when its log is dropped. -/
def forget : EStateM.Result ε (ω×List η) α → EStateM.Result ε ω α
  | .ok a s => .ok a s.1
  | .error e s => .error e s.1

/-- The program does to the world what `y` does, and hands back the same. -/
def Shadows (x : Logged ε ω η α) (y : EStateM ε ω α) : Prop :=
  ∀ s, forget (x s)=y s.1

theorem shadows_pure (a : α) : Shadows (pure a : Logged ε ω η α) (pure a) := by
  intro s
  rfl

theorem shadows_throw (e : ε) : Shadows (throw e : Logged ε ω η α) (throw e) := by
  intro s
  rfl

theorem shadows_outside (x : EStateM ε ω α) : Shadows (outside x : Logged ε ω η α) x := by
  intro s
  unfold outside
  cases hx : x s.1 with
  | ok a w => rfl
  | error e w => rfl

theorem Shadows.bind {x : Logged ε ω η α} {y : EStateM ε ω α} {f : α → Logged ε ω η β}
    {g : α → EStateM ε ω β} (hx : Shadows x y) (hf : ∀ a, Shadows (f a) (g a)) :
    Shadows (x >>= f) (y >>= g) := by
  intro s
  have hs := hx s
  cases hr : x s with
  | ok a t =>
    rw [hr] at hs
    rw [bind_ok hr,bind_ok hs.symm]
    exact hf a t
  | error e t =>
    rw [hr] at hs
    rw [bind_error hr,bind_error hs.symm]
    rfl

/-- After a program that only hands back `a`, the second one decides. -/
theorem Shadows.after {x : Logged ε ω η α} {a : α} (hx : Shadows x (pure a))
    {f : α → Logged ε ω η β} {y : EStateM ε ω β} (hf : Shadows (f a) y) :
    Shadows (x >>= f) y := by
  intro s
  have hs := hx s
  cases hr : x s with
  | ok b t =>
    rw [hr] at hs
    obtain ⟨hb,ht⟩ := EStateM.Result.ok.inj hs
    rw [bind_ok hr,hb,←ht]
    exact hf t
  | error e t =>
    rw [hr] at hs
    cases hs

/-- After a program that only raises, nothing more happens. -/
theorem Shadows.ended {x : Logged ε ω η α} {e : ε} (hx : Shadows x (throw e))
    (f : α → Logged ε ω η β) : Shadows (x >>= f) (throw e) := by
  intro s
  have hs := hx s
  cases hr : x s with
  | ok b t =>
    rw [hr] at hs
    cases hs
  | error e' t =>
    rw [hr] at hs
    obtain ⟨he,ht⟩ := EStateM.Result.error.inj hs
    rw [bind_error hr,he,forget,ht]
    rfl

/-- A request that is only written down leaves no trace in the world. -/
theorem shadows_record {x : Logged ε ω η α} {y : EStateM ε ω α} (request : η)
    (h : Shadows x y) : Shadows (do record request; x) y := by
  intro s
  exact h (s.1,s.2++[request])

end CudaForge.LoggedPrograms
