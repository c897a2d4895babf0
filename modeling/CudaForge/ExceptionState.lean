import Mathlib.Tactic

/-!
# Programs whose exceptions keep the state

An `EStateM` program either returns or raises, and in both cases hands back
the state it left: a raised exception does not undo earlier assignments.
`Meets` is the total-correctness precondition of such a program, with one
rule for each way of building it; `Raises` says that it ends in an
exception, and `Leaves` speaks of the state left either way.
-/

namespace CudaForge.ExceptionState

variable {ε ε' σ τ α β : Type}

/-- Run `x` at `s`: it returns, and the value and the state left satisfy `Q`. -/
def Meets (x : EStateM ε σ α) (s : σ) (Q : α → σ → Prop) : Prop :=
  match x s with
  | .ok a t => Q a t
  | .error _ _ => False

/-- Turn a stateless computation that may raise into a program. -/
def raising (r : Except ε α) : EStateM ε σ α :=
  match r with
  | .ok a => pure a
  | .error e => throw e

@[simp] theorem meets_pure (a : α) (s : σ) (Q : α → σ → Prop) :
    Meets (pure a : EStateM ε σ α) s Q ↔ Q a s := Iff.rfl

@[simp] theorem meets_get (s : σ) (Q : σ → σ → Prop) :
    Meets (get : EStateM ε σ σ) s Q ↔ Q s s := Iff.rfl

@[simp] theorem meets_set (t s : σ) (Q : PUnit → σ → Prop) :
    Meets (set t : EStateM ε σ PUnit) s Q ↔ Q ⟨⟩ t := Iff.rfl

@[simp] theorem meets_modify (f : σ → σ) (s : σ) (Q : PUnit → σ → Prop) :
    Meets (modify f : EStateM ε σ PUnit) s Q ↔ Q ⟨⟩ (f s) := Iff.rfl

@[simp] theorem meets_throw (e : ε) (s : σ) (Q : α → σ → Prop) :
    Meets (throw e : EStateM ε σ α) s Q ↔ False := Iff.rfl

@[simp] theorem meets_raising_ok (a : α) (s : σ) (Q : α → σ → Prop) :
    Meets (raising (.ok a) : EStateM ε σ α) s Q ↔ Q a s := Iff.rfl

/-- The composition rule: the second program starts where the first one stopped. -/
@[simp] theorem meets_bind (x : EStateM ε σ α) (f : α → EStateM ε σ β) (s : σ)
    (Q : β → σ → Prop) :
    Meets (x >>= f) s Q ↔ Meets x s (fun a t => Meets (f a) t Q) := by
  have hb : (x >>= f) s = EStateM.bind x f s := rfl
  unfold Meets
  rw [hb,EStateM.bind]
  cases x s <;> rfl

/-- A weaker requirement is met by the same run. -/
theorem Meets.mono {x : EStateM ε σ α} {s : σ} {P Q : α → σ → Prop}
    (h : Meets x s P) (hPQ : ∀ a t, P a t → Q a t) : Meets x s Q := by
  unfold Meets at h ⊢
  cases hx : x s with
  | ok a t => rw [hx] at h; exact hPQ a t h
  | error e t => rw [hx] at h; exact h.elim

/-- A program that meets a requirement did return. -/
theorem Meets.returns {x : EStateM ε σ α} {s : σ} {Q : α → σ → Prop} (h : Meets x s Q) :
    ∃ a t, x s = .ok a t ∧ Q a t := by
  unfold Meets at h
  cases hx : x s with
  | ok a t => rw [hx] at h; exact ⟨a,t,rfl,h⟩
  | error e t => rw [hx] at h; exact h.elim

/-- Run `x` at `s`: it raises. -/
def Raises (x : EStateM ε σ α) (s : σ) : Prop := ∃ e t, x s=.error e t

@[simp] theorem raises_throw (e : ε) (s : σ) : Raises (throw e : EStateM ε σ α) s := ⟨e,s,rfl⟩

@[simp] theorem raises_raising_error (e : ε) (s : σ) :
    Raises (raising (.error e) : EStateM ε σ α) s := ⟨e,s,rfl⟩

/-- An exception of the first program is one of the composition. -/
theorem Raises.bind {x : EStateM ε σ α} {s : σ} (h : Raises x s) (f : α → EStateM ε σ β) :
    Raises (x >>= f) s := by
  obtain ⟨e,t,hx⟩ := h
  refine ⟨e,t,?_⟩
  have hb : (x >>= f) s=EStateM.bind x f s := rfl
  rw [hb,EStateM.bind,hx]

/-- Run `x` at `s`: whether it returns or raises, the state left satisfies `Q`. -/
def Leaves (x : EStateM ε σ α) (s : σ) (Q : σ → Prop) : Prop :=
  match x s with
  | .ok _ t => Q t
  | .error _ t => Q t

/-- A composition goes on where its first program returned. -/
theorem bind_ok {x : EStateM ε σ α} {s t : σ} {a : α} (h : x s=.ok a t)
    (f : α → EStateM ε σ β) : (x >>= f) s=f a t := by
  have hb : (x >>= f) s=EStateM.bind x f s := rfl
  rw [hb,EStateM.bind,h]

/-- A composition ends where its first program raised. -/
theorem bind_error {x : EStateM ε σ α} {s t : σ} {e : ε} (h : x s=.error e t)
    (f : α → EStateM ε σ β) : (x >>= f) s=.error e t := by
  have hb : (x >>= f) s=EStateM.bind x f s := rfl
  rw [hb,EStateM.bind,h]

/-- What a program hands back, wrapped. -/
theorem map_ok {x : EStateM ε σ α} {s t : σ} {a : α} (h : x s=.ok a t) (f : α → β) :
    (f <$> x) s=.ok (f a) t := by
  have hm : (f <$> x) s=EStateM.map f x s := rfl
  rw [hm,EStateM.map,h]

/-- An exception passes by the wrapping. -/
theorem map_error {x : EStateM ε σ α} {s t : σ} {e : ε} (h : x s=.error e t) (f : α → β) :
    (f <$> x) s=.error e t := by
  have hm : (f <$> x) s=EStateM.map f x s := rfl
  rw [hm,EStateM.map,h]

/-- Run `x` at `s`: a value and the state it leaves satisfy `Q`, the state an
exception leaves satisfies `E`. -/
def Ends (x : EStateM ε σ α) (s : σ) (Q : α → σ → Prop) (E : σ → Prop) : Prop :=
  match x s with
  | .ok a t => Q a t
  | .error _ t => E t

section Ends

variable {s t : σ} {Q : α → σ → Prop} {E : σ → Prop}

@[simp] theorem ends_pure (a : α) : Ends (pure a : EStateM ε σ α) s Q E ↔ Q a s := Iff.rfl

@[simp] theorem ends_get {Q : σ → σ → Prop} :
    Ends (get : EStateM ε σ σ) s Q E ↔ Q s s := Iff.rfl

@[simp] theorem ends_set {Q : PUnit → σ → Prop} :
    Ends (set t : EStateM ε σ PUnit) s Q E ↔ Q ⟨⟩ t := Iff.rfl

@[simp] theorem ends_modify (f : σ → σ) {Q : PUnit → σ → Prop} :
    Ends (modify f : EStateM ε σ PUnit) s Q E ↔ Q ⟨⟩ (f s) := Iff.rfl

@[simp] theorem ends_throw (e : ε) : Ends (throw e : EStateM ε σ α) s Q E ↔ E s := Iff.rfl

@[simp] theorem ends_raising_ok (a : α) :
    Ends (raising (.ok a) : EStateM ε σ α) s Q E ↔ Q a s := Iff.rfl

@[simp] theorem ends_raising_error (e : ε) :
    Ends (raising (.error e) : EStateM ε σ α) s Q E ↔ E s := Iff.rfl

/-- The composition rule: an exception of the first program ends both. -/
@[simp] theorem ends_bind (x : EStateM ε σ β) (f : β → EStateM ε σ α) :
    Ends (x >>= f) s Q E ↔ Ends x s (fun b t => Ends (f b) t Q E) E := by
  have hb : (x >>= f) s=EStateM.bind x f s := rfl
  unfold Ends
  rw [hb,EStateM.bind]
  cases x s <;> rfl

/-- Weaker requirements are met by the same run. -/
theorem Ends.mono {x : EStateM ε σ α} {P : α → σ → Prop} {D : σ → Prop} (h : Ends x s P D)
    (hPQ : ∀ a t, P a t → Q a t) (hDE : ∀ t, D t → E t) : Ends x s Q E := by
  unfold Ends at h ⊢
  cases hx : x s with
  | ok a t => rw [hx] at h; exact hPQ a t h
  | error e t => rw [hx] at h; exact hDE t h

/-- The two endings of a run. -/
theorem Ends.endings {x : EStateM ε σ α} (h : Ends x s Q E) :
    (∃ a t, x s=.ok a t ∧ Q a t) ∨ ∃ e t, x s=.error e t ∧ E t := by
  unfold Ends at h
  cases hx : x s with
  | ok a t => exact Or.inl ⟨a,t,rfl,by rwa [hx] at h⟩
  | error e t => exact Or.inr ⟨e,t,rfl,by rwa [hx] at h⟩

end Ends

/-- What a run hands back, nothing when it raised, and the state it leaves. -/
def answered : EStateM.Result ε σ α → Option α×σ
  | .ok a t => (some a,t)
  | .error _ t => (none,t)

/-- A run that hands back a value, or raises `e` instead. -/
def ending (e : ε) : Option α → σ → EStateM.Result ε σ α
  | some a,t => .ok a t
  | none,t => .error e t

@[simp] theorem answered_ending (e : ε) (a : Option α) (t : σ) :
    answered (ending e a t)=(a,t) := by
  cases a <;> rfl

/-- Wrapping the value of a program that ends so. -/
theorem bind_ending {x : EStateM ε σ α} {e : ε} {a : Option α} {s t : σ}
    (hx : x s=ending e a t) (f : α → β) :
    (do let a ← x; pure (f a) : EStateM ε σ β) s=ending e (a.map f) t := by
  have hb : (x >>= fun a => (pure (f a) : EStateM ε σ β)) s=
      EStateM.bind x (fun a => pure (f a)) s := rfl
  rw [hb,EStateM.bind,hx]
  cases a <;> rfl

/-- Wrapping the value of a program wraps what it hands back. -/
theorem answered_map (x : EStateM ε σ α) (f : α → β) (s : σ) :
    answered ((do let a ← x; pure (f a) : EStateM ε σ β) s)=
      ((answered (x s)).1.map f,(answered (x s)).2) := by
  have hb : (x >>= fun a => (pure (f a) : EStateM ε σ β)) s=
      EStateM.bind x (fun a => pure (f a)) s := rfl
  rw [hb,EStateM.bind]
  cases x s <;> rfl

/-- Reading the state hands it on. -/
theorem bind_get (f : σ → EStateM ε σ β) (s : σ) : (get >>= f) s=f s s := rfl

/-- After a modification the program goes on from the modified state. -/
theorem bind_modify (g : σ → σ) (f : PUnit → EStateM ε σ β) (s : σ) :
    (modify g >>= f) s=f ⟨⟩ (g s) := rfl

end CudaForge.ExceptionState
