import Mathlib.Tactic

/-!
# Exceptions of the Python code

The built-in exception classes the modelled code raises, itself or through
the built-in operation it uses.
-/

namespace CudaForge.PythonBuiltins

/-- A Python exception of the built-in class it names, with its message. -/
inductive PyError where
  /-- A list subscript or a token index out of range. -/
  | indexError (message : String)
  /-- A key that no table carries. -/
  | keyError (message : String)
  /-- An argument out of its domain. -/
  | valueError (message : String)
  /-- A condition the code asserts cannot arise. -/
  | runtimeError (message : String)
  /-- A method that the object does not have. -/
  | attributeError (message : String)
  /-- A failed `assert`. -/
  | assertionError (message : String)
  /-- A division by zero. -/
  | zeroDivisionError (message : String)
  /-- A number too large for its type. -/
  | overflowError (message : String)
  deriving DecidableEq,Repr

/-- What Python raises on a subscript beyond the end of a list. -/
def listIndexError : PyError := .indexError "list index out of range"

/-- A call that returns is followed by the rest. -/
@[simp] theorem ok_bind {α β : Type} (x : α) (f : α → Except PyError β) :
    (Except.ok x >>= f)=f x := rfl

/-- What returned has come from a call that returned and the rest. -/
theorem of_bind_ok {α β : Type} {x : Except PyError α} {f : α → Except PyError β} {b : β}
    (h : (x >>= f)=.ok b) : ∃ a, x=.ok a ∧ f a=.ok b := by
  cases x with
  | error e => exact absurd h nofun
  | ok a => exact ⟨a,rfl,h⟩

/-- A loop whose every call returns. -/
theorem mapM_ok {α β : Type} {f : α → Except PyError β} {g : α → β} {xs : List α}
    (h : ∀ x∈xs, f x=.ok (g x)) : xs.mapM f=.ok (xs.map g) := by
  induction xs with
  | nil => rfl
  | cons x xs ih =>
    rw [List.mapM_cons,h x List.mem_cons_self,
      ih (fun y hy => h y (List.mem_cons_of_mem _ hy))]
    rfl

end CudaForge.PythonBuiltins
