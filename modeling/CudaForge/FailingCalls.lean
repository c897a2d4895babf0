import CudaForge.ExceptionState

/-!
# Programs with calls that may fail

A program that keeps its state when it raises, next to the same program with
calls to something outside that may raise as well. The second one does what
the first one does, or ends in a failing call.
-/

namespace CudaForge.FailingCalls

open ExceptionState

variable {ε κ σ α β : Type}

/-- Why a program ended early. -/
inductive Fault (ε κ : Type) where
  /-- An exception of its own. -/
  | own (error : ε)
  /-- A call to something outside raised. -/
  | outside (call : κ) (error : ε)

/-- A program without calls. -/
def lift (x : EStateM ε σ α) : EStateM (Fault ε κ) σ α := fun s =>
  match x s with
  | .ok a t => .ok a t
  | .error e t => .error (.own e) t

/-- A call; what raises is the call that fails, if any. -/
def invoke [DecidableEq κ] (raises : Option (κ×ε)) (call : κ) : EStateM (Fault ε κ) σ Unit :=
  match raises with
  | none => pure ()
  | some (failing,error) => if failing=call then throw (.outside call error) else pure ()

/-- At this state the first program does what the second one does, or ends in
the failing call. -/
def Mimics (raises : Option (κ×ε)) (x : EStateM (Fault ε κ) σ α) (y : EStateM ε σ α) (s : σ) :
    Prop :=
  x s=lift y s ∨ ∃ call error t, raises=some (call,error) ∧ x s=.error (.outside call error) t

variable {raises : Option (κ×ε)}

/-- A program without calls does what it does. -/
theorem mimics_lift (y : EStateM ε σ α) (s : σ) : Mimics raises (lift y) y s := Or.inl rfl

theorem mimics_pure (a : α) (s : σ) :
    Mimics raises (pure a : EStateM (Fault ε κ) σ α) (pure a) s := Or.inl rfl

/-- The composition rule. -/
theorem Mimics.bind {x : EStateM (Fault ε κ) σ α} {y : EStateM ε σ α} {s : σ}
    {f : α → EStateM (Fault ε κ) σ β} {g : α → EStateM ε σ β} (h : Mimics raises x y s)
    (hfg : ∀ a t, y s=.ok a t → Mimics raises (f a) (g a) t) :
    Mimics raises (x >>= f) (y >>= g) s := by
  rcases h with hx | ⟨call,error,t,hr,hx⟩
  · cases hy : y s with
    | ok a t =>
      have hxo : x s=.ok a t := by rw [hx,lift,hy]
      rcases hfg a t hy with hf | ⟨call,error,u,hr,hf⟩
      · refine Or.inl ?_
        rw [bind_ok hxo,hf,lift,lift,bind_ok hy]
      · refine Or.inr ⟨call,error,u,hr,?_⟩
        rw [bind_ok hxo,hf]
    | error e t =>
      have hxe : x s=.error (.own e) t := by rw [hx,lift,hy]
      refine Or.inl ?_
      rw [bind_error hxe,lift,bind_error hy]
  · exact Or.inr ⟨call,error,t,hr,bind_error hx f⟩

/-- Both programs read the state. -/
theorem mimics_get {f : σ → EStateM (Fault ε κ) σ β} {g : σ → EStateM ε σ β} {s : σ}
    (h : Mimics raises (f s) (g s) s) : Mimics raises (get >>= f) (get >>= g) s := h

/-- A call that does not fail changes nothing. -/
theorem mimics_invoke [DecidableEq κ] {call : κ} {f : Unit → EStateM (Fault ε κ) σ β}
    {g : EStateM ε σ β} {s : σ} (h : Mimics raises (f ()) g s) :
    Mimics raises (invoke raises call >>= f) g s := by
  cases raises with
  | none => exact h
  | some failure =>
    obtain ⟨failing,error⟩ := failure
    by_cases hc : failing=call
    · refine Or.inr ⟨call,error,s,?_,?_⟩
      · rw [hc]
      · have hi : invoke (some (failing,error)) call s=
            (.error (.outside call error) s : EStateM.Result (Fault ε κ) σ Unit) := by
          rw [invoke,if_pos hc]
          rfl
        exact bind_error hi f
    · have hi : invoke (some (failing,error)) call s=
          (.ok () s : EStateM.Result (Fault ε κ) σ Unit) := by
        rw [invoke,if_neg hc]
        rfl
      rcases h with hf | ⟨other,e,t,hr,hf⟩
      · exact Or.inl ((bind_ok hi f).trans hf)
      · exact Or.inr ⟨other,e,t,hr,(bind_ok hi f).trans hf⟩

/-- An assignment made in two parts, before and after a call. -/
theorem mimics_around [DecidableEq κ] {call : κ} (first second : σ → σ) (s : σ) :
    Mimics raises (do
      lift (modify first)
      invoke raises call
      lift (modify second)) (modify (fun s => second (first s))) s := by
  have hsplit : Mimics raises (do
      lift (modify first)
      invoke raises call
      lift (modify second)) (do
      modify first
      modify second) s :=
    (mimics_lift _ s).bind (fun _ t _ => mimics_invoke (mimics_lift _ t))
  exact hsplit

end CudaForge.FailingCalls
