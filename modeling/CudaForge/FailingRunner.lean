import CudaForge.ContinuousScheduler
import CudaForge.FailingCalls

/-!
# The scheduler thread over a runner that may raise

The functions of the continuous batcher that call the runner, with calls that
may raise: nothing catches what they raise, so it ends the thread, and what
was done before the call stays done. A runner may have written to the
sequences when it raises.
-/

namespace CudaForge.FailingRunner

open PythonBuiltins CacheBlocks CacheManager ServingTypes ContinuousScheduler ExceptionState
open FailingCalls

/-- A call of the runner, with the ids passed. -/
inductive RunnerCall where
  | prefill (sequences : List SequenceId)
  | decodeStep (sequences : List SequenceId)
  | evict (sequence : SequenceId)
  deriving DecidableEq

/-- The sequences in a call. -/
def RunnerCall.sequences : RunnerCall → List SequenceId
  | .prefill sequences => sequences
  | .decodeStep sequences => sequences
  | .evict sequence => [sequence]

/-- The call of the step that raises, if one does, and what it raises. -/
abbrev Raising := Option (RunnerCall×PyError)

/-- A piece of the scheduler that may call the runner. -/
abbrev ExposedM := EStateM (Fault PyError RunnerCall) Batcher

/-- A running sequence given back, after the runner has dropped it. -/
def handBack (env : Env) (kind : Settlement) (count : ContinuousStats → ContinuousStats)
    (request : Request) (state : SequenceState) : BatcherM Unit := do
  let s ← get
  match s.cache with
  | none => pure ()
  | some cache => onCache cache (KVCacheManager.release state.sequenceId)
  modify (fun s => {s with stats := count s.stats})
  log (.settled kind request (some state.sequenceId))
  modify (fun s =>
    {s with failed := if env.completeRaises state.sequenceId then s.failed+1 else s.failed})

/-- `runner.evict`, and the sequence given back. -/
def settleRow (raises : Raising) (env : Env) (kind : Settlement)
    (count : ContinuousStats → ContinuousStats) (request : Request) (state : SequenceState) :
    ExposedM Unit := do
  lift (log (.evict state.sequenceId))
  invoke raises (.evict state.sequenceId)
  lift (handBack env kind count request state)

/-- Walk the running set. -/
def settleRows (raises : Raising) (env : Env) (kind : Settlement)
    (count : ContinuousStats → ContinuousStats) (leaves : SequenceState → Bool) :
    List (Request×SequenceState) → ExposedM (List (Request×SequenceState))
  | [] => pure []
  | (request,state)::rest =>
    if leaves state then do
      settleRow raises env kind count request state
      settleRows raises env kind count leaves rest
    else do
      let survivors ← settleRows raises env kind count leaves rest
      pure ((request,state)::survivors)

/-- Drop sequences the cache evicted. -/
def evictPreempted (raises : Raising) (env : Env) (preempted : List SequenceId) :
    ExposedM Unit := do
  let s ← get
  let survivors ← settleRows raises env .preempted
    (fun stats => {stats with preempted := stats.preempted+1})
    (fun state => decide (state.sequenceId∈preempted)) s.running
  lift (modify (fun s => {s with running := survivors}))

/-- Hand back finished sequences and free their rows. -/
def retire (raises : Raising) (env : Env) : ExposedM Unit := do
  let s ← get
  let stillRunning ← settleRows raises env .completed
    (fun stats => {stats with completions := stats.completions+1})
    SequenceState.finished s.running
  lift (modify (fun s => {s with running := stillRunning}))

/-- Reserve cache for a request and start it, or defer it. -/
def offerToCache (config : BatcherConfig) (raises : Raising) (env : Env) (request : Request)
    (admitted : List SequenceState) : ExposedM (Bool×List SequenceState) := do
  let s ← get
  let state : SequenceState := ⟨s.nextId,request.prompt,request.generation,[],false,0⟩
  lift (modify (fun s => {s with nextId := s.nextId+1}))
  match s.cache with
  | none => do
    lift (start request state)
    pure (true,admitted++[state])
  | some cache => do
    let outcome ← lift (onCache cache
      (KVCacheManager.admitSequence state.sequenceId (config.estimateTokens request.prompt)))
    if outcome.ok then do
      if outcome.preempted=[] then pure () else evictPreempted raises env outcome.preempted
      lift (start request state)
      pure (true,admitted++[state])
    else do
      lift (modify (fun s =>
        {s with stats := {s.stats with cacheRefusals := s.stats.cacheRefusals+1}}))
      if s.running=[] ∧ admitted=[] then do
        lift (reject config request (s!"prompt needs more KV cache than the " ++
          s!"{cache.totalBlocks}-block pool holds"))
        pure (true,admitted)
      else do
        lift (modify (fun s => {s with deferred := some request}))
        lift (log (.deferred request))
        pure (false,admitted)

/-- Offer a request and go on admitting, or stop for this pass. -/
def takeOffer (config : BatcherConfig) (raises : Raising) (env : Env) (request : Request)
    (admitted : List SequenceState) : ExposedM Unit := do
  let offer ← offerToCache config raises env request admitted
  lift (enter (if offer.1 then .admitting offer.2 else .prefilling offer.2))

/-- One turn of the admission loop. -/
def admitTurn (config : BatcherConfig) (raises : Raising) (env : Env)
    (admitted : List SequenceState) : ExposedM Unit := do
  let s ← get
  if config.maxBatch ≤ s.running.length+admitted.length then lift (enter (.prefilling admitted))
  else
    match s.deferred with
    | some request => do
      lift (modify (fun s => {s with deferred := none}))
      takeOffer config raises env request admitted
    | none =>
      match env.read with
      | .empty => lift (enter (.prefilling admitted))
      | .sentinel => lift (enter (.closing admitted))
      | .request read => do
        let request : Request := {read with dequeuedAt := some env.now}
        lift (log (.dequeued request))
        if request.expired env.checkedAt then do
          lift (modify (fun s => {s with stats := {s.stats with expired := s.stats.expired+1}}))
          lift (log (.settled .expired request none))
          lift (enter (.admitting admitted))
        else takeOffer config raises env request admitted

/-- The runner writes to the sequences passed to it. -/
def written (env : Env) (passed : List SequenceId) (s : Batcher) : Batcher :=
  {s with running := s.running.map (fun row =>
    if row.2.sequenceId∈passed then (row.1,row.2.advanced (env.advance row.2)) else row)}

/-- A call that writes to the sequences passed, and is counted when it has
returned. -/
def advance (raises : Raising) (env : Env) (call : RunnerCall)
    (count : ContinuousStats → ContinuousStats) : ExposedM Unit := do
  lift (modify (written env call.sequences))
  invoke raises call
  lift (modify (fun s => {s with stats := count s.stats}))

/-- `runner.prefill`. -/
def prefillTurn (raises : Raising) (env : Env) (admitted : List SequenceState) :
    ExposedM Unit := do
  if admitted=[] then lift (enter .testing)
  else do
    let passed := admitted.map SequenceState.sequenceId
    let s ← get
    lift (log (.prefill passed (ids s.running)))
    advance raises env (.prefill passed)
      (fun stats => {stats with admissions := stats.admissions+admitted.length})
    lift (enter .testing)

/-- One more token of cache for every running sequence. -/
def reserveStep (raises : Raising) (env : Env) : ExposedM Unit := do
  let s ← get
  match s.cache with
  | none => pure ()
  | some _ => do
    let casualties ← lift (reserveRows s.running)
    if casualties=[] then pure () else evictPreempted raises env casualties.eraseDups

/-- `runner.decode_step`. -/
def decodeStep (config : BatcherConfig) (raises : Raising) (env : Env)
    (states : List SequenceState) : ExposedM Unit := do
  let s ← get
  let passed := states.map SequenceState.sequenceId
  lift (log (.decode passed (ids s.running)))
  advance raises env (.decodeStep passed) (fun stats => {stats with
    decodeSteps := stats.decodeSteps+1
    occupiedRows := stats.occupiedRows+s.running.length
    availableRows := stats.availableRows+config.maxBatch
    maxObservedBatch := max stats.maxObservedBatch s.running.length})

/-- Reserve, decode and retire. -/
def stepTurn (config : BatcherConfig) (raises : Raising) (env : Env) : ExposedM Unit := do
  reserveStep raises env
  let s ← get
  if s.running=[] then lift (enter (.admitting []))
  else do
    decodeStep config raises env (s.running.map Prod.snd)
    retire raises env
    lift (enter (.admitting []))

/-- What the thread does next. -/
def turn (config : BatcherConfig) (raises : Raising) (env : Env) : Phase → ExposedM Unit
  | .admitting admitted => admitTurn config raises env admitted
  | .closing admitted => lift (closeTurn admitted)
  | .prefilling admitted => prefillTurn raises env admitted
  | .testing => lift (testTurn env)
  | .stepping => stepTurn config raises env
  | .returned => pure ()
  | .crashed _ => pure ()

/-- One step of the thread, and the call of the runner that raised in it. -/
def exposedStep (config : BatcherConfig) (raises : Raising) (env : Env) (s : Batcher) :
    Batcher×Option RunnerCall :=
  match turn config raises env s.phase s with
  | .ok _ t => (t,none)
  | .error (.own e) t => ({t with phase := .crashed e},none)
  | .error (.outside call e) t => ({t with phase := .crashed e},some call)

section Mimicry

variable {config : BatcherConfig} {raises : Raising} (env : Env) (s : Batcher)

theorem settleRow_mimics (kind : Settlement) (count : ContinuousStats → ContinuousStats)
    (request : Request) (state : SequenceState) :
    Mimics raises (settleRow raises env kind count request state)
      (ContinuousScheduler.settleRow env kind count request state) s :=
  (mimics_lift _ s).bind (fun _ t _ => mimics_invoke (mimics_lift _ t))

theorem settleRows_mimics (kind : Settlement) (count : ContinuousStats → ContinuousStats)
    (leaves : SequenceState → Bool) (rows : List (Request×SequenceState)) :
    Mimics raises (settleRows raises env kind count leaves rows)
      (ContinuousScheduler.settleRows env kind count leaves rows) s := by
  induction rows generalizing s with
  | nil => exact mimics_pure [] s
  | cons row rest ih =>
    rw [settleRows,ContinuousScheduler.settleRows]
    split
    · exact (settleRow_mimics env s kind count row.1 row.2).bind (fun _ t _ => ih t)
    · exact (ih s).bind (fun _ t _ => mimics_pure _ t)

theorem evictPreempted_mimics (preempted : List SequenceId) :
    Mimics raises (evictPreempted raises env preempted)
      (ContinuousScheduler.evictPreempted env preempted) s :=
  mimics_get ((settleRows_mimics env s _ _ _ _).bind (fun _ t _ => mimics_lift _ t))

theorem retire_mimics :
    Mimics raises (retire raises env) (ContinuousScheduler.retire env) s :=
  mimics_get ((settleRows_mimics env s _ _ _ _).bind (fun _ t _ => mimics_lift _ t))

theorem offerToCache_mimics (request : Request) (admitted : List SequenceState) :
    Mimics raises (offerToCache config raises env request admitted)
      (ContinuousScheduler.offerToCache config env request admitted) s := by
  rw [offerToCache,ContinuousScheduler.offerToCache]
  refine mimics_get ((mimics_lift _ s).bind (fun _ t _ => ?_))
  cases s.cache with
  | none => exact (mimics_lift _ t).bind (fun _ u _ => mimics_pure _ u)
  | some cache =>
    refine (mimics_lift _ t).bind (fun outcome u _ => ?_)
    dsimp only
    split
    · split
      · exact (mimics_lift _ u).bind (fun _ v _ => mimics_pure _ v)
      · exact (evictPreempted_mimics env u _).bind
          (fun _ v _ => (mimics_lift _ v).bind (fun _ w _ => mimics_pure _ w))
    · refine (mimics_lift _ u).bind (fun _ v _ => ?_)
      split
      · exact (mimics_lift _ v).bind (fun _ w _ => mimics_pure _ w)
      · exact (mimics_lift _ v).bind
          (fun _ w _ => (mimics_lift _ w).bind (fun _ x _ => mimics_pure _ x))

theorem takeOffer_mimics (request : Request) (admitted : List SequenceState) :
    Mimics raises (takeOffer config raises env request admitted)
      (ContinuousScheduler.takeOffer config env request admitted) s :=
  (offerToCache_mimics env s request admitted).bind (fun _ t _ => mimics_lift _ t)

theorem admitTurn_mimics (admitted : List SequenceState) :
    Mimics raises (admitTurn config raises env admitted)
      (ContinuousScheduler.admitTurn config env admitted) s := by
  rw [admitTurn,ContinuousScheduler.admitTurn]
  refine mimics_get ?_
  split
  · exact mimics_lift _ s
  · cases s.deferred with
    | some request =>
      exact (mimics_lift _ s).bind (fun _ t _ => takeOffer_mimics env t request admitted)
    | none =>
      cases env.read with
      | empty => exact mimics_lift _ s
      | sentinel => exact mimics_lift _ s
      | request read =>
        refine (mimics_lift _ s).bind (fun _ t _ => ?_)
        split
        · exact (mimics_lift _ t).bind
            (fun _ u _ => (mimics_lift _ u).bind (fun _ v _ => mimics_lift _ v))
        · exact takeOffer_mimics env t _ admitted

theorem advance_mimics (call : RunnerCall) (count : ContinuousStats → ContinuousStats) :
    Mimics raises (advance raises env call count) (modify (fun s =>
      {written env call.sequences s with stats := count (written env call.sequences s).stats}))
      s :=
  mimics_around (written env call.sequences) (fun s => {s with stats := count s.stats}) s

theorem prefillTurn_mimics (admitted : List SequenceState) :
    Mimics raises (prefillTurn raises env admitted)
      (ContinuousScheduler.prefillTurn env admitted) s := by
  rw [prefillTurn,ContinuousScheduler.prefillTurn]
  split
  · exact mimics_lift _ s
  · refine mimics_get ((mimics_lift _ s).bind (fun _ t _ => ?_))
    -- what the runner writes and the count are one assignment of the other program
    exact (advance_mimics env t _ _).bind (fun _ u _ => mimics_lift _ u)

theorem reserveStep_mimics :
    Mimics raises (reserveStep raises env) (ContinuousScheduler.reserveStep env) s := by
  rw [reserveStep,ContinuousScheduler.reserveStep]
  refine mimics_get ?_
  cases s.cache with
  | none => exact mimics_pure () s
  | some cache =>
    refine (mimics_lift _ s).bind (fun casualties t _ => ?_)
    split
    · exact mimics_pure () t
    · exact evictPreempted_mimics env t _

theorem decodeStep_mimics (states : List SequenceState) :
    Mimics raises (decodeStep config raises env states)
      (ContinuousScheduler.decodeStep config env states) s := by
  rw [decodeStep,ContinuousScheduler.decodeStep]
  refine mimics_get ((mimics_lift _ s).bind (fun _ t ht => ?_))
  -- the width is read before the call, and the call keeps it
  obtain ⟨_,rfl⟩ := EStateM.Result.ok.inj ht
  rcases advance_mimics env _ (.decodeStep (states.map SequenceState.sequenceId)) _ with h | h
  · refine Or.inl (h.trans ?_)
    rfl
  · exact Or.inr h

theorem stepTurn_mimics :
    Mimics raises (stepTurn config raises env) (ContinuousScheduler.stepTurn config env) s := by
  refine (reserveStep_mimics env s).bind (fun _ t _ => mimics_get ?_)
  split
  · exact mimics_lift _ t
  · exact (decodeStep_mimics env t _).bind
      (fun _ u _ => (retire_mimics env u).bind (fun _ v _ => mimics_lift _ v))

theorem turn_mimics (config : BatcherConfig) (raises : Raising) (phase : Phase) :
    Mimics raises (turn config raises env phase) (ContinuousScheduler.turn config env phase) s := by
  cases phase with
  | admitting admitted => exact admitTurn_mimics env s admitted
  | closing admitted => exact mimics_lift (closeTurn admitted) s
  | prefilling admitted => exact prefillTurn_mimics env s admitted
  | testing => exact mimics_lift _ s
  | stepping => exact stepTurn_mimics env s
  | returned => exact mimics_pure () s
  | crashed error => exact mimics_pure () s

/-- A step is one of the thread over a runner that does not raise, or the
call that raises ends the thread. -/
theorem exposedStep_cases (config : BatcherConfig) (raises : Raising) :
    exposedStep config raises env s=(schedulerStep config env s,none) ∨
    ∃ call error, raises=some (call,error) ∧
      (exposedStep config raises env s).1.phase=.crashed error ∧
      (exposedStep config raises env s).2=some call := by
  rw [exposedStep]
  rcases turn_mimics env s config raises s.phase with
    ht | ⟨call,error,t,hr,ht⟩
  · refine Or.inl ?_
    rw [ht,lift,schedulerStep]
    cases ContinuousScheduler.turn config env s.phase s <;> rfl
  · refine Or.inr ⟨call,error,hr,?_⟩
    rw [ht]
    exact ⟨rfl,rfl⟩

end Mimicry

end CudaForge.FailingRunner
