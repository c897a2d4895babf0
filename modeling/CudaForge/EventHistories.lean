import Mathlib.Tactic

/-!
# Histories in which every event is allowed by what came before

A rule says of an event whether it may follow a history. A history is
lawful when each of its events may follow the ones before it, so a lawful
history grows one allowed event at a time.
-/

namespace CudaForge.EventHistories

variable {ε : Type} {allowed : List ε → ε → Prop} {p : List ε → Prop} {trace events : List ε}

/-- Every event is allowed by the ones before it. -/
def Lawful (allowed : List ε → ε → Prop) (trace : List ε) : Prop :=
  ∀ before event later, trace=before++event::later → allowed before event

/-- Nothing happened yet. -/
theorem lawful_nil : Lawful allowed [] := by
  intro before event later h
  exact absurd h (by simp only [List.nil_eq,List.append_eq_nil_iff,reduceCtorEq,and_false,
    not_false_eq_true])

/-- One more allowed event. -/
theorem Lawful.snoc {event : ε} (h : Lawful allowed trace) (he : allowed trace event) :
    Lawful allowed (trace++[event]) := by
  intro before other later hs
  rcases List.eq_nil_or_concat later with rfl | ⟨rest,last,rfl⟩
  · obtain ⟨hb,ho⟩ := List.append_inj' hs rfl
    obtain ⟨rfl,_⟩ := List.cons.inj ho
    exact hb ▸ he
  · have hs' : trace++[event]=(before++other::rest)++[last] := by
      rw [hs,List.concat_eq_append,List.append_assoc,List.cons_append]
    exact h before other rest (List.append_inj' hs' rfl).1

/-- Several more events, each allowed when its turn comes. -/
theorem Lawful.extend (h : Lawful allowed trace)
    (he : ∀ before event later, events=before++event::later → allowed (trace++before) event) :
    Lawful allowed (trace++events) := by
  induction events using List.reverseRecOn with
  | nil => rwa [List.append_nil]
  | append_singleton events event ih =>
    rw [←List.append_assoc]
    refine Lawful.snoc (ih ?_) (he events event [] rfl)
    intro before other later hs
    exact he before other (later++[event]) (by rw [hs,List.append_assoc,List.cons_append])

/-- A property of histories that no further event takes away. -/
def Lasting (p : List ε → Prop) : Prop := ∀ before later, p before → p (before++later)

/-- That an event happened when something lasting already held lasts. -/
theorem lasting_split (event : ε) (p : List ε → Prop) :
    Lasting (fun trace => ∃ before later, trace=before++event::later ∧ p before) := by
  rintro trace events ⟨before,later,rfl,hp⟩
  exact ⟨before,later++events,by rw [List.append_assoc,List.cons_append],hp⟩

end CudaForge.EventHistories
