import CudaForge.CacheManager
import CudaForge.ServingTypes
import CudaForge.TransitionRuns

/-!
# The continuous batcher's scheduler thread

The scheduler between decode steps: admit from the deferred slot and the
queue, prefill what was admitted, reserve cache, decode, retire. A step of
the model holds at most one operation on the shared queue. What the thread
does not decide itself is given to each step as its environment: the queue's
answer, the clock, what the runner writes, and which callbacks raise.
Metrics other than the count of failed callbacks are not modelled: nothing
reads them.
-/

namespace CudaForge.ContinuousScheduler

open ExceptionState PythonBuiltins CacheBlocks CacheManager ServingTypes TransitionRuns

/-- How a request left the scheduler. -/
inductive Settlement where
  /-- Retired when finished. -/
  | completed
  /-- Dropped for want of cache, with what it had produced. -/
  | preempted
  /-- Its deadline had passed when it was dequeued. -/
  | expired
  /-- It can never be served. -/
  | rejected (reason : String)
  deriving DecidableEq,Repr

/-- What the scheduler did, for reasoning about whole runs; no step reads it. -/
inductive Event where
  | dequeued (request : Request)
  | deferred (request : Request)
  | entered (request : Request) (sequence : SequenceId)
  | settled (kind : Settlement) (request : Request) (sequence : Option SequenceId)
  /-- `runner.prefill`, with the ids passed and the ids then running. -/
  | prefill (passed running : List SequenceId)
  /-- `runner.decode_step`, with the ids passed and the ids then running. -/
  | decode (passed running : List SequenceId)
  /-- `runner.evict`. -/
  | evict (sequence : SequenceId)
  /-- One token of cache asked for, and the answer. -/
  | extended (sequence : SequenceId) (outcome : AdmissionOutcome)
  deriving DecidableEq

/-- What the scheduler did, in numbers. -/
structure ContinuousStats where
  /-- Decode steps taken. -/
  decodeSteps : ℕ := 0
  /-- Sum of batch widths across steps. -/
  occupiedRows : ℕ := 0
  /-- Steps times capacity. -/
  availableRows : ℕ := 0
  /-- Sequences prefilled. -/
  admissions : ℕ := 0
  /-- Sequences retired. -/
  completions : ℕ := 0
  /-- Requests dropped for their deadline. -/
  expired : ℕ := 0
  /-- Widest batch so far. -/
  maxObservedBatch : ℕ := 0
  /-- Admissions the cache refused. -/
  cacheRefusals : ℕ := 0
  /-- Requests that could never be served. -/
  rejected : ℕ := 0
  /-- Running sequences dropped for want of cache. -/
  preempted : ℕ := 0
  deriving DecidableEq,Repr

/-- Where the thread is. -/
inductive Phase where
  /-- At the top of the admission loop, with what this pass admitted. -/
  | admitting (admitted : List SequenceState)
  /-- The sentinel was read; its consequences are still to be recorded. -/
  | closing (admitted : List SequenceState)
  /-- After the admission loop. -/
  | prefilling (admitted : List SequenceState)
  /-- After admission: is anything running? -/
  | testing
  /-- About to reserve, decode and retire. -/
  | stepping
  /-- The thread has returned. -/
  | returned
  /-- An exception ended the thread. -/
  | crashed (error : PyError)
  deriving DecidableEq

/-- The batcher's fixed parameters. -/
structure BatcherConfig where
  /-- Most rows at a time. -/
  maxBatch : ℕ := 16
  /-- Most requests queued. -/
  queueCapacity : ℕ := 1024
  /-- A rejection callback was given. -/
  hasOnRejected : Bool := false
  /-- Tokens a prompt will occupy. -/
  estimateTokens : String → ℕ
  maxBatch_pos : 0 < maxBatch
  capacity_le : maxBatch≤queueCapacity

/-- The batcher's fields that the scheduler thread uses. -/
structure Batcher where
  /-- Rows in use, with the request each serves. -/
  running : List (Request×SequenceState) := []
  /-- A request the cache refused, held for the next pass. -/
  deferred : Option Request := none
  /-- The cache, when admission is bounded by one. -/
  cache : Option KVCacheManager := none
  /-- The next sequence id. -/
  nextId : SequenceId := 1
  /-- The sentinel has been seen. -/
  closed : Bool := false
  /-- New submissions are refused. -/
  stopping : Bool := false
  /-- The counters. -/
  stats : ContinuousStats := {}
  /-- Completion callbacks that raised. -/
  failed : ℕ := 0
  /-- Where the thread is. -/
  phase : Phase := .admitting []
  /-- What has happened so far. -/
  trace : List Event := []

/-- What a read of the queue gives. -/
inductive QueueRead where
  | empty
  | sentinel
  | request (request : Request)
  deriving DecidableEq

/-- What one step finds outside the thread. -/
structure Env where
  /-- The queue's answer, if the step reads it. -/
  read : QueueRead := .empty
  /-- The queue's emptiness, if the step tests it. -/
  queueEmpty : Bool := true
  /-- The clock when a request is stamped. -/
  now : ℚ := 0
  /-- The clock when its deadline is checked. -/
  checkedAt : ℚ := 0
  /-- What the runner writes to a sequence. -/
  advance : SequenceState → Progress := fun state =>
    ⟨state.tokens,state.stoppedEarly,state.promptTokens⟩
  /-- The completion callback raises. -/
  completeRaises : SequenceId → Bool := fun _ => false

/-- A piece of the scheduler. -/
abbrev BatcherM := EStateM PyError Batcher

/-- The ids of some rows. -/
def ids (rows : List (Request×SequenceState)) : List SequenceId :=
  rows.map (fun row => row.2.sequenceId)

/-- Record an event. -/
def log (event : Event) : BatcherM Unit := modify (fun s => {s with trace := s.trace++[event]})

/-- A call on the cache; it leaves the cache it left. -/
def onCache {α : Type} (cache : KVCacheManager) (call : CacheM α) : BatcherM α :=
  match call cache with
  | .ok value left => do
    modify (fun s => {s with cache := some left})
    pure value
  | .error e left => do
    modify (fun s => {s with cache := some left})
    throw e

/-- A running sequence given back: its row and blocks are freed, it is
counted, and its caller is told. A failing callback is counted, not passed
on. -/
def settleRow (env : Env) (kind : Settlement) (count : ContinuousStats → ContinuousStats)
    (request : Request) (state : SequenceState) : BatcherM Unit := do
  log (.evict state.sequenceId)
  let s ← get
  match s.cache with
  | none => pure ()
  | some cache => onCache cache (KVCacheManager.release state.sequenceId)
  modify (fun s => {s with stats := count s.stats})
  log (.settled kind request (some state.sequenceId))
  modify (fun s =>
    {s with failed := if env.completeRaises state.sequenceId then s.failed+1 else s.failed})

/-- Walk the running set, give back the sequences that leave and return the
others. -/
def settleRows (env : Env) (kind : Settlement) (count : ContinuousStats → ContinuousStats)
    (leaves : SequenceState → Bool) :
    List (Request×SequenceState) → BatcherM (List (Request×SequenceState))
  | [] => pure []
  | (request,state)::rest =>
    if leaves state then do
      settleRow env kind count request state
      settleRows env kind count leaves rest
    else do
      let survivors ← settleRows env kind count leaves rest
      pure ((request,state)::survivors)

/-- Drop sequences the cache evicted. -/
def evictPreempted (env : Env) (preempted : List SequenceId) : BatcherM Unit := do
  let s ← get
  let survivors ← settleRows env .preempted
    (fun stats => {stats with preempted := stats.preempted+1})
    (fun state => decide (state.sequenceId∈preempted)) s.running
  modify (fun s => {s with running := survivors})

/-- Hand back finished sequences and free their rows. -/
def retire (env : Env) : BatcherM Unit := do
  let s ← get
  let stillRunning ← settleRows env .completed
    (fun stats => {stats with completions := stats.completions+1})
    SequenceState.finished s.running
  modify (fun s => {s with running := stillRunning})

/-- Settle a request that can never be served. Without a rejection callback
it is completed with an empty sequence, which takes an id. -/
def reject (config : BatcherConfig) (request : Request) (reason : String) : BatcherM Unit := do
  modify (fun s => {s with stats := {s.stats with rejected := s.stats.rejected+1}})
  log (.settled (.rejected reason) request none)
  modify (fun s => if config.hasOnRejected then s else {s with nextId := s.nextId+1})

/-- Give a request a row. -/
def start (request : Request) (state : SequenceState) : BatcherM Unit := do
  modify (fun s => {s with running := s.running++[(request,state)]})
  log (.entered request state.sequenceId)

/-- Reserve cache for a request and start it, or defer it. Returns whether
admission goes on, and what this pass has admitted. -/
def offerToCache (config : BatcherConfig) (env : Env) (request : Request)
    (admitted : List SequenceState) : BatcherM (Bool×List SequenceState) := do
  let s ← get
  let state : SequenceState := ⟨s.nextId,request.prompt,request.generation,[],false,0⟩
  modify (fun s => {s with nextId := s.nextId+1})
  match s.cache with
  | none => do
    start request state
    pure (true,admitted++[state])
  | some cache => do
    let outcome ← onCache cache
      (KVCacheManager.admitSequence state.sequenceId (config.estimateTokens request.prompt))
    if outcome.ok then do
      if outcome.preempted=[] then pure () else evictPreempted env outcome.preempted
      start request state
      pure (true,admitted++[state])
    else do
      modify (fun s => {s with stats := {s.stats with cacheRefusals := s.stats.cacheRefusals+1}})
      if s.running=[] ∧ admitted=[] then do
        -- nothing is running, so nothing will free blocks
        reject config request (s!"prompt needs more KV cache than the " ++
          s!"{cache.totalBlocks}-block pool holds")
        pure (true,admitted)
      else do
        modify (fun s => {s with deferred := some request})
        log (.deferred request)
        pure (false,admitted)

/-- Move on to another phase. -/
def enter (phase : Phase) : BatcherM Unit := modify (fun s => {s with phase := phase})

/-- Offer a request and go on admitting, or stop for this pass. -/
def takeOffer (config : BatcherConfig) (env : Env) (request : Request)
    (admitted : List SequenceState) : BatcherM Unit := do
  let offer ← offerToCache config env request admitted
  enter (if offer.1 then .admitting offer.2 else .prefilling offer.2)

/-- One turn of the admission loop. -/
def admitTurn (config : BatcherConfig) (env : Env) (admitted : List SequenceState) :
    BatcherM Unit := do
  let s ← get
  if config.maxBatch ≤ s.running.length+admitted.length then enter (.prefilling admitted)
  else
    match s.deferred with
    | some request => do
      modify (fun s => {s with deferred := none})
      takeOffer config env request admitted
    | none =>
      match env.read with
      | .empty => enter (.prefilling admitted)
      | .sentinel => enter (.closing admitted)
      | .request read => do
        let request : Request := {read with dequeuedAt := some env.now}
        log (.dequeued request)
        if request.expired env.checkedAt then do
          modify (fun s => {s with stats := {s.stats with expired := s.stats.expired+1}})
          log (.settled .expired request none)
          enter (.admitting admitted)
        else takeOffer config env request admitted

/-- Record that the sentinel was read. -/
def closeTurn (admitted : List SequenceState) : BatcherM Unit := do
  modify (fun s => {s with stopping := true, closed := true})
  enter (.prefilling admitted)

/-- Prefill what this pass admitted. The runner writes to the sequences
passed to it, which the running set shares. -/
def prefillTurn (env : Env) (admitted : List SequenceState) : BatcherM Unit := do
  if admitted=[] then enter .testing
  else do
    let passed := admitted.map SequenceState.sequenceId
    let s ← get
    log (.prefill passed (ids s.running))
    modify (fun s => {s with
      running := s.running.map (fun row =>
        if row.2.sequenceId∈passed then (row.1,row.2.advanced (env.advance row.2)) else row)
      stats := {s.stats with admissions := s.stats.admissions+admitted.length}})
    enter .testing

/-- Is anything running, and if not, is anything left to do? -/
def testTurn (env : Env) : BatcherM Unit := do
  let s ← get
  if s.running=[] then
    enter (if s.closed && env.queueEmpty then .returned else .admitting [])
  else enter .stepping

/-- Extend every running sequence by one token and collect the casualties. -/
def reserveRows : List (Request×SequenceState) → BatcherM (List SequenceId)
  | [] => pure []
  | (_,state)::rest => do
    let s ← get
    match s.cache with
    | none => pure []
    | some cache => do
      let outcome ← onCache cache (KVCacheManager.extend state.sequenceId 1)
      log (.extended state.sequenceId outcome)
      let later ← reserveRows rest
      pure ((if outcome.ok then outcome.preempted else [state.sequenceId])++later)

/-- One more token of cache for every running sequence. -/
def reserveStep (env : Env) : BatcherM Unit := do
  let s ← get
  match s.cache with
  | none => pure ()
  | some _ => do
    let casualties ← reserveRows s.running
    if casualties=[] then pure () else evictPreempted env casualties.eraseDups

/-- Advance the given sequences by one token. -/
def decodeStep (config : BatcherConfig) (env : Env) (states : List SequenceState) :
    BatcherM Unit := do
  let s ← get
  log (.decode (states.map SequenceState.sequenceId) (ids s.running))
  modify (fun s => {s with
    running := s.running.map (fun row =>
      if row.2.sequenceId∈states.map SequenceState.sequenceId then
        (row.1,row.2.advanced (env.advance row.2))
      else row)
    stats := {s.stats with
      decodeSteps := s.stats.decodeSteps+1
      occupiedRows := s.stats.occupiedRows+s.running.length
      availableRows := s.stats.availableRows+config.maxBatch
      maxObservedBatch := max s.stats.maxObservedBatch s.running.length}})

/-- Reserve, decode and retire. -/
def stepTurn (config : BatcherConfig) (env : Env) : BatcherM Unit := do
  reserveStep env
  let s ← get
  if s.running=[] then enter (.admitting [])
  else do
    decodeStep config env (s.running.map Prod.snd)
    retire env
    enter (.admitting [])

/-- What the thread does next. -/
def turn (config : BatcherConfig) (env : Env) : Phase → BatcherM Unit
  | .admitting admitted => admitTurn config env admitted
  | .closing admitted => closeTurn admitted
  | .prefilling admitted => prefillTurn env admitted
  | .testing => testTurn env
  | .stepping => stepTurn config env
  | .returned => pure ()
  | .crashed _ => pure ()

/-- One step of the thread. -/
def schedulerStep (config : BatcherConfig) (env : Env) (s : Batcher) : Batcher :=
  match turn config env s.phase s with
  | .ok _ t => t
  | .error e t => {t with phase := .crashed e}

/-- A batcher as constructed, with a new cache of its own or without one. -/
def Fresh (s : Batcher) : Prop :=
  ∃ cache : Option KVCacheManager, s={cache := cache} ∧
    ∀ manager, cache=some manager → ∃ blockCount blockSize policy,
      KVCacheManager.create blockCount blockSize policy=.ok manager

/-- The scheduler thread in any environment. -/
def schedulerMachine (config : BatcherConfig) : Machine Batcher Env where
  starts s := Fresh s
  steps s env t := t=schedulerStep config env s

/-- Several steps of the thread. -/
def schedule (config : BatcherConfig) (envs : List Env) (s : Batcher) : Batcher :=
  envs.foldl (fun s env => schedulerStep config env s) s

/-- The batcher after several steps is reached. -/
theorem reaches_schedule (config : BatcherConfig) (envs : List Env) :
    ∀ {s : Batcher}, (schedulerMachine config).Reaches s →
      (schedulerMachine config).Reaches (schedule config envs s) := by
  induction envs with
  | nil => exact fun h => h
  | cons env rest ih => exact fun h => ih (.step h rfl)

theorem word_rows : 0 < 3 := by decide

theorem word_capacity : 3≤4 := by decide

/-- Three rows; the prompt `b` is two tokens long, any other prompt one. -/
def wordConfig : BatcherConfig :=
  ⟨3,4,false,fun prompt => if prompt="b" then 2 else 1,word_rows,word_capacity⟩

theorem wordConfig_estimates (prompt : String) : 1≤wordConfig.estimateTokens prompt := by
  have he : wordConfig.estimateTokens prompt=if prompt="b" then 2 else 1 := rfl
  rw [he]
  split <;> decide

/-- A request for one prompt. -/
def wordRequest (word : String) : Request :=
  {requestId := word, prompt := word, generation := GenerationSettings.defaultGeneration,
    enqueuedAt := 0}

/-- A new batcher over blocks of one token each. -/
def pooledBatcher (blocks : ℕ) : Batcher :=
  {cache := some ⟨exclusivePool blocks 1 (List.range blocks),1,.newest,∅,[],0,0⟩}

theorem pooledBatcher_fresh {blocks : ℕ} (hb : 0<blocks) : Fresh (pooledBatcher blocks) := by
  refine ⟨_,rfl,?_⟩
  intro manager hm
  refine ⟨blocks,1,.newest,?_⟩
  rw [KVCacheManager.create,create_eq hb Nat.one_pos]
  exact congrArg Except.ok (Option.some.inj hm)

end CudaForge.ContinuousScheduler
