import CudaForge.ServingTypes
import CudaForge.TransitionRuns

/-!
# The callers' side of a batcher

`submit`, `try_submit` and `shutdown`, which both batchers have word for
word: a bounded queue with `None` as its sentinel, and an event that stops
new submissions. Reading or setting the event and a queue operation are one
step each, so a call is spread over several steps and other threads come in
between. Metrics are not modelled.
-/

namespace CudaForge.SubmissionQueue

open ServingTypes

/-- The queue, the event, and the calls in progress. -/
structure Ingress where
  /-- The queue, oldest first; `none` is the sentinel. -/
  queue : List (Option Request) := []
  /-- The event that stops new submissions. -/
  stopping : Bool := false
  /-- Submissions that found the event clear and have not put yet. -/
  submitting : List Request := []
  /-- Shutdown calls that found the event clear and have not set it yet. -/
  closing : ℕ := 0
  /-- Shutdown calls that have set the event and not put the sentinel yet. -/
  announcing : ℕ := 0
  /-- Requests whose submission returned true, in order. -/
  accepted : List Request := []
  deriving DecidableEq

/-- A step of some caller. -/
inductive Call where
  /-- A submission reads the event. -/
  | submit (request : Request)
  /-- Its put succeeds and it returns true. -/
  | enqueue (request : Request)
  /-- Its put finds the queue full, at once or until its timeout, and it
  returns false. -/
  | refuse (request : Request)
  /-- A shutdown reads the event. -/
  | shutdown
  /-- It sets the event. -/
  | announce
  /-- It puts the sentinel. -/
  | putSentinel
  /-- Its put finds the queue full until its timeout; the exception is
  suppressed. -/
  | giveUp
  deriving DecidableEq

/-- What a caller's step does, if it can be taken now. -/
def Ingress.call (capacity : ℕ) (i : Ingress) : Call → Option Ingress
  | .submit request =>
    some (if i.stopping then i else {i with submitting := i.submitting++[request]})
  | .enqueue request =>
    if request∈i.submitting ∧ i.queue.length < capacity then
      some {i with
        queue := i.queue++[some request]
        submitting := i.submitting.erase request
        accepted := i.accepted++[request]}
    else none
  | .refuse request =>
    if request∈i.submitting ∧ capacity ≤ i.queue.length then
      some {i with submitting := i.submitting.erase request}
    else none
  | .shutdown => some (if i.stopping then i else {i with closing := i.closing+1})
  | .announce =>
    if 0 < i.closing then
      some {i with stopping := true, closing := i.closing-1, announcing := i.announcing+1}
    else none
  | .putSentinel =>
    if 0 < i.announcing ∧ i.queue.length < capacity then
      some {i with queue := i.queue++[none], announcing := i.announcing-1}
    else none
  | .giveUp =>
    if 0 < i.announcing ∧ capacity ≤ i.queue.length then
      some {i with announcing := i.announcing-1}
    else none

/-- The requests of a queue, oldest first. -/
def requestsIn (queue : List (Option Request)) : List Request := queue.filterMap id

/-- The sentinels of a queue. -/
def sentinelsIn (queue : List (Option Request)) : ℕ := queue.count none

/-- Sentinels in the queue, and those some shutdown call will still put. -/
def sentinels (i : Ingress) : ℕ := sentinelsIn i.queue+i.closing+i.announcing

/-- A request as it was submitted: the batcher stamps it when it dequeues it. -/
def unstamped (request : Request) : Request := {request with dequeuedAt := none}

theorem requestsIn_append (queue rest : List (Option Request)) :
    requestsIn (queue++rest)=requestsIn queue++requestsIn rest := List.filterMap_append

theorem sentinelsIn_append (queue rest : List (Option Request)) :
    sentinelsIn (queue++rest)=sentinelsIn queue+sentinelsIn rest := List.count_append

variable {capacity : ℕ} {i j : Ingress}

/-- A caller's step accepts exactly what it puts. -/
theorem call_accepts {call : Call} (h : i.call capacity call=some j) :
    (j.accepted=i.accepted ∧ requestsIn j.queue=requestsIn i.queue) ∨
    ∃ request, call=.enqueue request ∧ j.accepted=i.accepted++[request] ∧
      requestsIn j.queue=requestsIn i.queue++[request] := by
  cases call with
  | submit request =>
    refine Or.inl ?_
    rw [←Option.some.inj h]
    split <;> exact ⟨rfl,rfl⟩
  | enqueue request =>
    refine Or.inr ⟨request,rfl,?_⟩
    obtain ⟨_,hj⟩ := Option.ite_none_right_eq_some.mp h
    rw [←Option.some.inj hj]
    exact ⟨rfl,requestsIn_append _ _⟩
  | refuse request =>
    obtain ⟨_,hj⟩ := Option.ite_none_right_eq_some.mp h
    rw [←Option.some.inj hj]
    exact Or.inl ⟨rfl,rfl⟩
  | shutdown =>
    refine Or.inl ?_
    rw [←Option.some.inj h]
    split <;> exact ⟨rfl,rfl⟩
  | announce =>
    obtain ⟨_,hj⟩ := Option.ite_none_right_eq_some.mp h
    rw [←Option.some.inj hj]
    exact Or.inl ⟨rfl,rfl⟩
  | putSentinel =>
    obtain ⟨_,hj⟩ := Option.ite_none_right_eq_some.mp h
    rw [←Option.some.inj hj]
    refine Or.inl ⟨rfl,?_⟩
    rw [requestsIn_append]
    exact List.append_nil _
  | giveUp =>
    obtain ⟨_,hj⟩ := Option.ite_none_right_eq_some.mp h
    rw [←Option.some.inj hj]
    exact Or.inl ⟨rfl,rfl⟩

/-- A shutdown that gives up takes its sentinel with it. -/
theorem giveUp_sentinels (h : i.call capacity .giveUp=some j) :
    j.stopping=i.stopping ∧ sentinels j+1=sentinels i := by
  obtain ⟨hg,hj⟩ := Option.ite_none_right_eq_some.mp h
  rw [←Option.some.inj hj]
  refine ⟨rfl,?_⟩
  have ha := hg.1
  simp only [sentinels]
  omega

/-- Any other step of a caller leaves as many sentinels as there were, and one
once the event is set. -/
theorem call_sentinels {call : Call} (h : i.call capacity call=some j) (hg : call≠.giveUp)
    (hs : j.stopping=true) :
    0 < sentinels j ∨ i.stopping=true ∧ sentinels j=sentinels i := by
  cases call with
  | submit request =>
    have hj := Option.some.inj h
    cases hi : i.stopping with
    | true =>
      rw [if_pos hi] at hj
      exact Or.inr ⟨rfl,by rw [hj]⟩
    | false =>
      rw [if_neg (by rw [hi]; exact Bool.false_ne_true)] at hj
      rw [←hj] at hs
      exact absurd (hi.symm.trans hs) Bool.false_ne_true
  | enqueue request =>
    obtain ⟨_,hj⟩ := Option.ite_none_right_eq_some.mp h
    rw [←Option.some.inj hj] at hs ⊢
    refine Or.inr ⟨hs,?_⟩
    simp only [sentinels,sentinelsIn_append]
    rfl
  | refuse request =>
    obtain ⟨_,hj⟩ := Option.ite_none_right_eq_some.mp h
    rw [←Option.some.inj hj] at hs ⊢
    exact Or.inr ⟨hs,rfl⟩
  | shutdown =>
    have hj := Option.some.inj h
    cases hi : i.stopping with
    | true =>
      rw [if_pos hi] at hj
      exact Or.inr ⟨rfl,by rw [hj]⟩
    | false =>
      rw [if_neg (by rw [hi]; exact Bool.false_ne_true)] at hj
      rw [←hj] at hs
      exact absurd (hi.symm.trans hs) Bool.false_ne_true
  | announce =>
    obtain ⟨_,hj⟩ := Option.ite_none_right_eq_some.mp h
    rw [←Option.some.inj hj]
    exact Or.inl (Nat.succ_pos _)
  | putSentinel =>
    obtain ⟨_,hj⟩ := Option.ite_none_right_eq_some.mp h
    rw [←Option.some.inj hj]
    refine Or.inl ?_
    have hc : sentinelsIn [none]=1 := rfl
    simp only [sentinels,sentinelsIn_append,hc]
    omega
  | giveUp => exact absurd rfl hg

end CudaForge.SubmissionQueue
