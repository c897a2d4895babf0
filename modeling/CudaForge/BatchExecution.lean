import CudaForge.ServingEngines

/-!
# Executing a batch beside callers that cancel

`_execute` of `InferenceEngine` with `_complete_batch`, `_fail_batch` and
`_complete`, and the sweep of `shutdown`, next to callers that cancel their
futures. Asking whether a future is done and setting it are two steps: a
cancellation in between makes the second one raise. What the clock and the
runner give is fixed, so that a run can be compared with one without
cancellations. Of the metrics, completions and failures are counted.
-/

namespace CudaForge.BatchExecution

open ServingTypes DynamicBatching TransitionRuns ServingEngines

variable {ρ : Type}

/-- What a future is settled with. -/
inductive Outcome (ρ : Type) where
  /-- A response with the runner's result. -/
  | completed (result : ρ)
  /-- A response saying that the deadline passed. -/
  | expired
  /-- A response with this error. -/
  | failed (error : String)
  /-- The exception of the sweep. -/
  | abandoned
  deriving DecidableEq

/-- A future. -/
inductive Future (ρ : Type) where
  | pending
  | cancelled
  | settled (outcome : Outcome ρ)
  deriving DecidableEq

/-- `done`. -/
def Future.done : Future ρ → Bool
  | .pending => false
  | _ => true

/-- The batch a worker takes, and what it finds. -/
structure Setup (ρ : Type) where
  /-- The futures in the registry. -/
  registry : List String
  /-- The batch. -/
  batch : Batch
  /-- The worker's clock. -/
  clock : EngineClock
  /-- What the runner returns, or the text of what it raises. -/
  results : Except String (List ρ)
  /-- The text of the exception of a future that is done already. -/
  invalid : String
  /-- The registry is a dictionary. -/
  registry_nodup : registry.Nodup
  /-- Requests have different identifiers. -/
  requests_nodup : (batch.requests.map Request.requestId).Nodup

/-- Why futures are being settled. -/
inductive Mode where
  /-- `_expire`. -/
  | expiring
  /-- `_complete_batch`. -/
  | completing
  /-- `_fail_batch`. -/
  | failing
  deriving DecidableEq

/-- Where a call of `_complete` stands. -/
inductive Point where
  /-- It is to take the future from the registry. -/
  | taking
  /-- It is to ask whether the future is done. -/
  | testing
  /-- It found it pending and is to set it. -/
  | setting
  deriving DecidableEq

/-- Where the worker stands in `_execute`. -/
inductive Stage (ρ : Type) where
  | starting
  /-- In a loop of `_complete` calls. -/
  | settling (mode : Mode) (point : Point) (rest : List (String×Outcome ρ))
  /-- In `runner.generate`. -/
  | generating
  | ended
  /-- An exception left `_execute`. -/
  | escaped

/-- Where the sweep of `shutdown` stands. -/
inductive Sweep where
  | idle
  /-- It is to ask whether the first is done. -/
  | testing (rest : List String)
  /-- It found the first pending and is to set it. -/
  | setting (rest : List String)
  | returned
  /-- An exception left `shutdown`. -/
  | escaped
  deriving DecidableEq

/-- The worker, the sweep and the futures. -/
structure Execution (ρ : Type) where
  registry : List String
  futures : String → Future ρ := fun _ => .pending
  worker : Stage ρ := .starting
  sweep : Sweep := .idle
  /-- What the sweep took from the registry. -/
  taken : List String := []
  /-- The requests counted as completed. -/
  completed : List String := []
  /-- The requests counted as failed. -/
  failed : List String := []

/-- The requests that were live when the worker asked. -/
def live (setup : Setup ρ) : List Request := liveOf setup.batch setup.clock

/-- What `_fail_batch` settles. -/
def failures (setup : Setup ρ) (error : String) : List (String×Outcome ρ) :=
  (live setup).map (fun request => (request.requestId,.failed error))

/-- What `_complete_batch` settles. -/
def completions (setup : Setup ρ) (results : List ρ) : List (String×Outcome ρ) :=
  ((live setup).zip results).map (fun pair => (pair.1.requestId,.completed pair.2))

/-- What the first loop of `_execute` settles. -/
def expiries (setup : Setup ρ) : List (String×Outcome ρ) :=
  (expiredOf setup.batch setup.clock).map (fun request => (request.requestId,.expired))

/-- The text of the error for a wrong number of results. -/
def mismatch (results requests : ℕ) : String :=
  "RuntimeError: runner returned "++toString results++" results for a batch of "++
    toString requests++" requests"

/-- On to the next future, or to what comes behind the loop. -/
def goOn (setup : Setup ρ) (mode : Mode) : List (String×Outcome ρ) → Stage ρ
  | [] => if mode=.expiring ∧ live setup≠[] then .generating else .ended
  | rest => .settling mode .taking rest

/-- What an exception in a loop of `_complete` calls does. -/
def raised (setup : Setup ρ) : Mode → Stage ρ
  | .expiring => .escaped
  | .completing => goOn setup .failing (failures setup setup.invalid)
  | .failing => .escaped

/-- What the runner's call leads to. -/
def generated (setup : Setup ρ) : Stage ρ :=
  match setup.results with
  | .error error => goOn setup .failing (failures setup error)
  | .ok results =>
    if results.length=(live setup).length then
      goOn setup .completing (completions setup results)
    else goOn setup .failing (failures setup (mismatch results.length (live setup).length))

namespace Execution

/-- A request is counted before its future is taken. -/
def record (e : Execution ρ) (mode : Mode) (id : String) : Execution ρ :=
  match mode with
  | .expiring => e
  | .completing => {e with completed := e.completed++[id]}
  | .failing => {e with failed := e.failed++[id]}

/-- A future gets a new state. -/
def put (e : Execution ρ) (id : String) (future : Future ρ) : Execution ρ :=
  {e with futures := Function.update e.futures id future}

/-- The worker's next step. -/
def work (setup : Setup ρ) (e : Execution ρ) : Option (Execution ρ) :=
  match e.worker with
  | .starting => some {e with worker := goOn setup .expiring (expiries setup)}
  | .generating => some {e with worker := generated setup}
  | .settling mode .taking ((id,outcome)::rest) =>
    some (if id∈e.registry then
      {e.record mode id with
        registry := e.registry.erase id
        worker := .settling mode .testing ((id,outcome)::rest)}
    else {e.record mode id with worker := goOn setup mode rest})
  | .settling mode .testing ((id,outcome)::rest) =>
    some {e with
      worker := if (e.futures id).done then goOn setup mode rest
        else .settling mode .setting ((id,outcome)::rest)}
  | .settling mode .setting ((id,outcome)::rest) =>
    some (if (e.futures id).done then {e with worker := raised setup mode}
      else {e.put id (.settled outcome) with worker := goOn setup mode rest})
  | .settling _ _ [] => none
  | .ended => none
  | .escaped => none

/-- The next step of the sweep. -/
def sweepOn (e : Execution ρ) : Option (Execution ρ) :=
  match e.sweep with
  | .testing [] => some {e with sweep := .returned}
  | .testing (id::rest) =>
    some {e with sweep := if (e.futures id).done then .testing rest else .setting (id::rest)}
  | .setting (id::rest) =>
    some (if (e.futures id).done then {e with sweep := .escaped}
      else {e.put id (.settled .abandoned) with sweep := .testing rest})
  | .setting [] => none
  | .idle => none
  | .returned => none
  | .escaped => none

end Execution

/-- The executor has finished with the batch. -/
def Stage.over : Stage ρ → Bool
  | .ended => true
  | .escaped => true
  | _ => false

/-- A step of some thread. -/
inductive Action where
  /-- A caller cancels its future. -/
  | cancel (id : String)
  /-- The worker goes on. -/
  | work
  /-- The shutdown finds the executor idle and takes the registry. -/
  | sweep
  /-- Its sweep goes on. -/
  | sweepOn

/-- What a step does, if it can be taken now. -/
def Execution.step (setup : Setup ρ) (e : Execution ρ) : Action → Option (Execution ρ)
  | .cancel id => some (if (e.futures id).done then e else e.put id .cancelled)
  | .work => e.work setup
  | .sweep =>
    match e.sweep with
    | .idle =>
      if e.worker.over then
        some {e with registry := [], taken := e.registry, sweep := .testing e.registry}
      else none
    | _ => none
  | .sweepOn => e.sweepOn

/-- A worker takes the batch. -/
def begin (setup : Setup ρ) : Execution ρ := {registry := setup.registry}

/-- The runs on one batch. -/
def executionMachine (setup : Setup ρ) : Machine (Execution ρ) Action where
  starts e := e=begin setup
  steps e action e' := e.step setup action=some e'

/-- The worker found this future pending and sets it next. -/
def Stage.isSetting (id : String) : Stage ρ → Bool
  | .settling _ .setting ((other,_)::_) => other==id
  | _ => false

/-- The sweep found this future pending and sets it next. -/
def Sweep.isSetting (id : String) : Sweep → Bool
  | .setting (other::_) => other==id
  | _ => false

/-- Somebody found this future pending and sets it next. -/
def Execution.isSetting (e : Execution ρ) (id : String) : Bool :=
  e.worker.isSetting id||e.sweep.isSetting id

/-- Nobody cancels a future between the question whether it is done and the
setting of it. -/
def apart (e : Execution ρ) : Action → Bool
  | .cancel id => !e.isSetting id
  | _ => true

/-- Nobody cancels. -/
def quiet (_ : Execution ρ) : Action → Bool
  | .cancel _ => false
  | _ => true

end CudaForge.BatchExecution
