import CudaForge.ContinuousShutdown
import CudaForge.PaidSteps

/-!
# Does an admission pass fill the free rows?

A pass should end with every row in use unless the queue ran dry or the cache
refused. The loop's guard adds the sequences of the pass to a running set
that already holds them, so a pass may end with free rows and requests
queued: exactly when a turn finds rows free, but no more of them than the
pass has admitted.
-/

namespace CudaForge.WorkConservation

open ExceptionState CacheManager ServingTypes ContinuousScheduler SchedulerEffects SchedulerLedger
open ContinuousShutdown PaidSteps TransitionRuns

variable {config : BatcherConfig} {env : Env} {s t : Batcher}

/-- What the current pass has met so far. -/
structure Pass where
  /-- A read of the queue found it empty or returned the sentinel. -/
  dry : Bool := false
  /-- The cache refused a request. -/
  refused : Bool := false
  deriving DecidableEq

/-- The batcher with a record of its current pass. -/
structure Observed where
  batcher : Batcher
  pass : Pass := {}

/-- The record after a step. It is kept from the loop to the decode step, and
a new pass starts with a new one. -/
def observe (config : BatcherConfig) (env : Env) (o : Observed) : Pass :=
  match o.batcher.phase with
  | .admitting _ => {
      dry := o.pass.dry || (readsQueue config o.batcher &&
        match env.read with
        | .request _ => false
        | _ => true)
      refused := o.pass.refused || decide (o.batcher.stats.cacheRefusals<
        (schedulerStep config env o.batcher).stats.cacheRefusals)}
  | .testing => if o.batcher.running=[] then {} else o.pass
  | .stepping => {}
  | _ => o.pass

/-- The scheduler thread with the record of its passes. -/
def observedMachine (config : BatcherConfig) : Machine Observed Env where
  starts o := Fresh o.batcher ∧ o.pass={}
  steps o env p := p=⟨schedulerStep config env o.batcher,observe config env o⟩

/-- Every row is in use, or the pass met an empty queue, the sentinel or a
refusal. -/
def Filled (config : BatcherConfig) (o : Observed) : Prop :=
  o.batcher.running.length=config.maxBatch ∨ o.pass.dry=true ∨ o.pass.refused=true

/-- When `_admit` has returned the rows are filled as far as possible; and so
a decode step is taken with a free row only if the pass found nothing more to
admit, or if the reservation for the step has just dropped somebody. -/
def Conserves (config : BatcherConfig) (o : Observed) : Prop :=
  (o.batcher.phase=.testing → Filled config o) ∧
  ∀ env u, decodeCall env o.batcher=some u → u.running.length<config.maxBatch →
    o.pass.dry=true ∨ o.pass.refused=true ∨ u.running.length<o.batcher.running.length

/-- No turn of the loop finds rows free when the pass has admitted as many
sequences as there are. -/
def uncrowded (config : BatcherConfig) (o : Observed) : Bool :=
  match o.batcher.phase with
  | .admitting admitted =>
    decide (o.batcher.running.length<config.maxBatch →
      admitted.length<config.maxBatch-o.batcher.running.length) || o.pass.refused
  | _ => true

/-- What holds of the rows and the record at each point of a pass. -/
def OnTrack (config : BatcherConfig) (o : Observed) : Prop :=
  match o.batcher.phase with
  | .closing _ => o.pass.dry=true
  | .prefilling _ => Filled config o
  | .testing => Filled config o
  | .stepping => Filled config o
  | _ => True

/-- A deferral is a refusal by the cache. -/
theorem deferral_counts {request : Request} {admitted later : List SequenceState}
    (ho : OfferEffect config env request admitted s (false,later) t) :
    t.stats.cacheRefusals=s.stats.cacheRefusals+1 := by
  cases ho with
  | deferred _ _ => rfl

/-- A step of an uncrowded pass stays on track. -/
theorem OnTrack.step {o : Observed} (h : OnTrack config o)
    (hm : o.batcher.running.length≤config.maxBatch) (hg : uncrowded config o=true)
    (ht : schedulerStep config env o.batcher=t) (he : StepEffect config env o.batcher t) :
    OnTrack config ⟨t,observe config env o⟩ := by
  unfold OnTrack at h
  cases he with
  | @full admitted hp hf =>
    rw [uncrowded,hp,Bool.or_eq_true,decide_eq_true_iff] at hg
    rcases hg with hg | hr
    · refine Or.inl ?_
      show o.batcher.running.length=config.maxBatch
      by_contra hn
      have hl := hg (by omega)
      omega
    · refine Or.inr (Or.inr ?_)
      simp only [observe,hp,hr,Bool.true_or]
  | @emptied admitted hp hl hd hr =>
    refine Or.inr (Or.inl ?_)
    simp only [observe,hp,readsQueue,hl,hd,hr,decide_true,Option.isNone_none,Bool.and_self,
      Bool.or_true]
  | @sentinel admitted hp hl hd hr =>
    show (observe config env o).dry=true
    simp only [observe,hp,readsQueue,hl,hd,hr,decide_true,Option.isNone_none,Bool.and_self,
      Bool.or_true]
  | expired _ _ _ _ _ => trivial
  | @offered admitted request offer u v hp _ hh _ ho =>
    obtain ⟨goesOn,later⟩ := offer
    cases goesOn with
    | true => trivial
    | false =>
      refine Or.inr (Or.inr ?_)
      have hu : u.stats=o.batcher.stats := by
        cases hh with
        | deferred _ => rfl
        | read _ _ _ => rfl
      have hc := deferral_counts ho
      rw [hu] at hc
      have hlt : o.batcher.stats.cacheRefusals<
          (schedulerStep config env o.batcher).stats.cacheRefusals := by
        rw [ht]
        exact hc ▸ Nat.lt_succ_self _
      simp only [observe,hp,hlt,decide_true,Bool.or_true]
  | closed hp =>
    rw [hp] at h
    refine Or.inr (Or.inl ?_)
    simp only [observe,hp]
    exact h
  | prefilledNothing hp =>
    rw [hp] at h
    have ho : observe config env o=o.pass := by simp only [observe,hp]
    rw [ho]
    exact h
  | @prefilled admitted hp _ =>
    rw [hp] at h
    have ho : observe config env o=o.pass := by simp only [observe,hp]
    rw [ho]
    refine h.imp (fun hl => ?_) id
    exact (List.length_map _).trans hl
  | returned _ _ _ _ => trivial
  | idled _ _ _ => trivial
  | busy hp hr =>
    rw [hp] at h
    have ho : observe config env o=o.pass := by simp only [observe,hp,if_neg hr]
    rw [ho]
    exact h
  | crashed _ _ _ => trivial
  | starved _ _ _ => trivial
  | decoded _ _ _ => trivial
  | halted hp =>
    rcases hp with hp | ⟨e,hp⟩
    · unfold OnTrack
      simp only [hp]
    · unfold OnTrack
      simp only [hp]

/-- In every run whose passes are uncrowded the scheduler conserves work. -/
theorem uncrowded_conserves {o : Observed}
    (h : ((observedMachine config).guarded (fun o _ => uncrowded config o=true)).Reaches o) :
    Conserves config o := by
  have hi : CacheOk o.batcher ∧ o.batcher.running.length≤config.maxBatch ∧ OnTrack config o := by
    refine h.invariant (P := fun o => CacheOk o.batcher ∧
      o.batcher.running.length≤config.maxBatch ∧ OnTrack config o) ?_ ?_
    · intro o ⟨hs,_⟩
      have hk := fresh_cacheOk hs
      obtain ⟨batcher,pass⟩ := o
      obtain ⟨cache,hb,_⟩ := hs
      have hb' : batcher={cache := cache} := hb
      subst hb'
      exact ⟨hk,Nat.zero_le _,trivial⟩
    · intro o env p ⟨hk,hm,ho⟩ ⟨hg,hp⟩
      obtain ⟨he,hkt⟩ := schedulerStep_effect hk config env
      rw [hp]
      exact ⟨hkt,rows_step hm he,ho.step hm hg rfl he⟩
  obtain ⟨hk,hm,ho⟩ := hi
  refine ⟨?_,?_⟩
  · intro hp
    rw [OnTrack,hp] at ho
    exact ho
  · intro env u hu hl
    obtain ⟨hp,hr,_,_⟩ := decodeCall_effect hk hu
    rw [OnTrack,hp] at ho
    rcases ho with hf | hd | hr'
    · exact Or.inr (Or.inr (hf ▸ hl))
    · exact Or.inl hd
    · exact Or.inr (Or.inl hr')

/-- A pass whose loop goes on has not met an empty queue or the sentinel. -/
theorem reaches_wet {o : Observed} (h : (observedMachine config).Reaches o) :
    CacheOk o.batcher ∧ ∀ admitted, o.batcher.phase=.admitting admitted → o.pass.dry=false := by
  refine h.invariant (P := fun o => CacheOk o.batcher ∧
    ∀ admitted, o.batcher.phase=.admitting admitted → o.pass.dry=false) ?_ ?_
  · rintro o ⟨hs,ho⟩
    exact ⟨fresh_cacheOk hs,fun _ _ => by rw [ho]⟩
  · rintro o env p ⟨hk,hw⟩ hp
    obtain ⟨he,hkt⟩ := schedulerStep_effect hk config env
    rw [hp]
    refine ⟨hkt,?_⟩
    intro admitted ha
    change (schedulerStep config env o.batcher).phase=.admitting admitted at ha
    change (observe config env o).dry=false
    generalize schedulerStep config env o.batcher=t at he ha
    cases he with
    | @expired before request u hp hl hd hh _ =>
      cases hh with
      | deferred hs =>
        exact absurd (hs.symm.trans hd) (by simp only [reduceCtorEq,not_false_eq_true])
      | read _ hr _ => simp only [observe,hp,hw _ hp,hr,Bool.and_false,Bool.or_self]
    | @offered before request offer u v hp hl hh _ _ =>
      cases hh with
      | deferred hs =>
        simp only [observe,hp,hw _ hp,readsQueue,hs,Option.isNone_some,Bool.and_false,
          Bool.false_and,Bool.or_self]
      | read _ hr _ => simp only [observe,hp,hw _ hp,hr,Bool.and_false,Bool.or_self]
    | idled hp hr _ => simp only [observe,hp,if_pos hr]
    | starved hp _ _ => simp only [observe,hp]
    | decoded hp _ _ => simp only [observe,hp]
    | halted hp =>
      rw [ha] at hp
      exact absurd hp (by simp only [reduceCtorEq,exists_false,or_self,not_false_eq_true])
    | _ => cases ha

/-- A crowded turn ends the pass with rows free and nothing to excuse it. -/
theorem crowded_unfilled {o : Observed} (h : (observedMachine config).Reaches o)
    (hc : uncrowded config o=false) (env : Env) :
    (∃ admitted, (schedulerStep config env o.batcher).phase=.prefilling admitted) ∧
      ¬Filled config ⟨schedulerStep config env o.batcher,observe config env o⟩ := by
  obtain ⟨_,hw⟩ := reaches_wet h
  unfold uncrowded at hc
  cases hp : o.batcher.phase with
  | admitting admitted =>
    rw [hp] at hc
    simp only [Bool.or_eq_false_iff,decide_eq_false_iff_not,Classical.not_imp] at hc
    obtain ⟨⟨hl,hle⟩,hr⟩ := hc
    have hf : config.maxBatch≤o.batcher.running.length+admitted.length := by omega
    have ht : schedulerStep config env o.batcher={o.batcher with phase := .prefilling admitted} := by
      simp only [schedulerStep,turn,hp,admitTurn,bind_get,if_pos hf]
      rfl
    rw [ht]
    refine ⟨⟨admitted,rfl⟩,?_⟩
    have hn : ¬o.batcher.running.length+admitted.length<config.maxBatch := by omega
    simp only [Filled,observe,hp,ht,hw _ hp,hr,readsQueue,hn,decide_false,Bool.false_and,
      Bool.false_or,Nat.lt_irrefl,Bool.false_eq_true,or_false]
    omega
  | _ =>
    rw [hp] at hc
    exact absurd hc (by simp only [Bool.true_eq_false,not_false_eq_true])

theorem single_capacity : 1≤4 := by decide

theorem two_capacity : 2≤4 := by decide

/-- One row: every pass is uncrowded. -/
def singleRow : BatcherConfig := ⟨1,4,false,fun _ => 1,Nat.one_pos,single_capacity⟩

/-- The steps of a pass that fills the only row, up to its end. -/
def fillingSteps : List Env := [{read := .request (wordRequest "a")},{},{}]

theorem newObserved_starts (config : BatcherConfig) :
    (observedMachine config).starts {batcher := {}} := ⟨⟨none,rfl,nofun⟩,rfl⟩

/-- A pass over one row returns with the row in use. -/
theorem fillingSteps_conserve :
    ∃ o, ((observedMachine singleRow).guarded (fun o _ => uncrowded singleRow o=true)).Reaches o ∧
      o.batcher.phase=.testing ∧ o.batcher.running.length=1 ∧ Conserves singleRow o := by
  obtain ⟨o,hr,hp,hl⟩ := Machine.Reaches.replayed (m := observedMachine singleRow)
    (P := fun o => o.batcher.phase=.testing ∧ o.batcher.running.length=1)
    (fun o _ => uncrowded singleRow o) (fun _ _ _ ht => (Option.some.inj ht).symm) fillingSteps
    (.start (newObserved_starts singleRow)) (by decide +kernel)
  exact ⟨o,hr,hp,hl,uncrowded_conserves hr⟩

/-- Two rows, and a queue that always has another request. -/
def twoRows : BatcherConfig := ⟨2,4,false,fun _ => 1,Nat.two_pos,two_capacity⟩

/-- The same pass over two rows. -/
def halfFilled : Option Observed :=
  Machine.replay (fun o env => some ⟨schedulerStep twoRows env o.batcher,observe twoRows env o⟩)
    (fun _ _ => true) [{read := .request (wordRequest "a")},{read := .request (wordRequest "b")},{}]
    {batcher := {}}

theorem halfFilled_replays : halfFilled.isSome=true := by decide +kernel

/-- The pass returns after one admission, with a row free and the next
request still in the queue. -/
theorem halfFilled_idles :
    ¬∀ config o, (observedMachine config).Reaches o → Conserves config o := by
  intro h
  have hr := Machine.Reaches.replay (m := observedMachine twoRows)
    (fun _ _ _ ht => (Option.some.inj ht).symm) _ (.start (newObserved_starts twoRows))
    (Option.some_get halfFilled_replays).symm
  have hf := (h twoRows _ hr.of_guarded).1 (by decide +kernel)
  revert hf
  unfold Filled
  decide +kernel

end CudaForge.WorkConservation
