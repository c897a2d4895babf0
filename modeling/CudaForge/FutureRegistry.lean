import CudaForge.SubmissionQueue
import CudaForge.ThreadPools

/-!
# The futures registry of a serving engine

`submit`, `shutdown` and the settling of futures, which both engines have
word for word: a dictionary of futures under a lock, a closed flag, and a
batcher with an event of its own. Each read of a flag, queue operation and
dictionary operation is a step, and settling a future is one more, so other
threads come in between. The batcher and its threads are a parameter. A
future is named by the identifier of its request; metrics are not modelled.
-/

namespace CudaForge.FutureRegistry

open ServingTypes SubmissionQueue ThreadPools TransitionRuns

/-- Where a call of `submit` stands. -/
inductive Submission where
  | calling
  /-- It found the engine open. -/
  | admitted
  /-- Its future is in the registry; it is to read the batcher's event. -/
  | registered (request : Request) (blocking : Bool)
  /-- It found the event clear and is to put its request. -/
  | putting (request : Request) (blocking : Bool)
  /-- The batcher returned false. -/
  | refused (request : Request)
  /-- It returned its future. -/
  | returned (request : Request)
  /-- It raised. -/
  | raised
  deriving DecidableEq

/-- Where a call of `shutdown` stands. -/
inductive Shutdown where
  | calling
  /-- It found the engine closed and returned. -/
  | skipped
  /-- It is to close the engine. -/
  | closing
  /-- It is to read the batcher's event. -/
  | entering
  /-- It is to set the event. -/
  | announcing
  /-- It is to put the sentinel. -/
  | posting
  /-- It waits for the batcher's thread. -/
  | joining
  /-- The batcher's `shutdown` returned. -/
  | stopped
  /-- It waits for the executor. -/
  | waiting
  /-- It took these futures from the registry and settles them in turn. -/
  | sweeping (rest : List String)
  /-- It returned behind its sweep. -/
  | returned
  deriving DecidableEq

/-- Where a thread stands with the futures it settles. -/
inductive Completion where
  | resting
  /-- It is to take the first from the registry. -/
  | calling (id : String) (rest : List String)
  /-- It holds the first and settles it next. -/
  | holding (id : String) (rest : List String)
  deriving DecidableEq

/-- A thread with these futures to settle. -/
def begin : List String → Completion
  | [] => .resting
  | id::rest => .calling id rest

/-- A batcher with its threads, as an engine sees it. -/
structure Backend (σ ε : Type) where
  /-- What it starts as. -/
  starts : σ → Prop
  /-- How many of its threads settle futures. -/
  threads : ℕ
  /-- The event that stops new submissions. -/
  stopping : σ → Bool
  /-- What a caller's step does. -/
  call : σ → Call → Option σ
  /-- What a step of a thread does, and which futures it then settles. -/
  work : σ → ℕ → ε → Option (σ×List String)
  /-- The executor takes no more batches. -/
  halt : σ → σ
  /-- The executor has finished its batches. -/
  quiet : σ → List Completion → Bool
  call_stopping : ∀ s c t, call s c=some t → stopping s=true → stopping t=true
  announce_stopping : ∀ s t, call s .announce=some t → stopping t=true
  work_stopping : ∀ s k x r, work s k x=some r → stopping s=true → stopping r.1=true
  halt_stopping : ∀ s, stopping s=true → stopping (halt s)=true

/-- The engine and its callers. -/
structure Engine (σ : Type) where
  /-- The batcher with its threads. -/
  back : σ
  /-- The closed flag. -/
  closed : Bool := false
  /-- The futures in the registry. -/
  registry : List String := []
  /-- The calls of `submit` so far. -/
  submissions : List Submission := []
  /-- The calls of `shutdown` so far. -/
  shutdowns : List Shutdown := []
  /-- The threads that settle futures. -/
  threads : List Completion
  /-- The futures settled so far, in that order. -/
  settled : List String := []
  /-- The identifiers given to requests so far. -/
  issued : List String := []

/-- A step of some thread. -/
inductive Action (ε : Type) where
  /-- A caller calls `submit`. -/
  | submit
  /-- It reads the closed flag. -/
  | readClosed (call : ℕ)
  /-- Its prompt is too long. -/
  | overlong (call : ℕ)
  /-- It makes a request and puts its future into the registry. -/
  | register (call : ℕ) (request : Request) (blocking : Bool)
  /-- The batcher's `submit` reads the event. -/
  | readEvent (call : ℕ)
  /-- Its put succeeds. -/
  | put (call : ℕ)
  /-- Its put finds the queue full. -/
  | full (call : ℕ)
  /-- It takes its future back and raises. -/
  | withdraw (call : ℕ)
  /-- A caller calls `shutdown`. -/
  | shutdown
  /-- It goes on; its put of the sentinel may give up. -/
  | proceed (call : ℕ) (gaveUp : Bool)
  /-- A thread of the batcher or the executor goes on. -/
  | work (thread : ℕ) (env : ε)
  /-- It takes a future from the registry, if it is there. -/
  | claim (thread : ℕ)
  /-- It settles the future it took. -/
  | settle (thread : ℕ)

variable {σ ε : Type}

namespace Engine

/-- A call of `submit` goes on. -/
def place (e : Engine σ) (call : ℕ) (submission : Submission) : Engine σ :=
  {e with submissions := e.submissions.set call submission}

/-- A call of `shutdown` goes on. -/
def pass (e : Engine σ) (call : ℕ) (shutdown : Shutdown) : Engine σ :=
  {e with shutdowns := e.shutdowns.set call shutdown}

/-- A thread goes on with its futures. -/
def turn (e : Engine σ) (thread : ℕ) (completion : Completion) : Engine σ :=
  {e with threads := e.threads.set thread completion}

/-- A future that is not done is settled. -/
def finish (e : Engine σ) (id : String) : Engine σ :=
  if id∈e.settled then e else {e with settled := e.settled++[id]}

/-- The next step of a call of `shutdown`. -/
def proceed (B : Backend σ ε) (e : Engine σ) (call : ℕ) (gaveUp : Bool) :
    Shutdown → Option (Engine σ)
  | .calling => some (e.pass call (if e.closed then .skipped else .closing))
  | .closing => some {e.pass call .entering with closed := true}
  | .entering =>
    if B.stopping e.back then some (e.pass call .stopped)
    else (B.call e.back .shutdown).map (fun back => {e.pass call .announcing with back := back})
  | .announcing =>
    (B.call e.back .announce).map (fun back => {e.pass call .posting with back := back})
  | .posting =>
    (B.call e.back (if gaveUp then .giveUp else .putSentinel)).map
      (fun back => {e.pass call .joining with back := back})
  | .joining => some (e.pass call .stopped)
  | .stopped => some {e.pass call .waiting with back := B.halt e.back}
  | .waiting =>
    if B.quiet e.back e.threads then
      some {e.pass call (.sweeping e.registry) with registry := []}
    else none
  | .sweeping [] => some (e.pass call .returned)
  | .sweeping (id::rest) => some ((e.finish id).pass call (.sweeping rest))
  | .skipped => none
  | .returned => none

/-- What a step does, if it can be taken now. A request gets an identifier no
other request has. -/
def step (B : Backend σ ε) (e : Engine σ) : Action ε → Option (Engine σ)
  | .submit => some {e with submissions := e.submissions++[.calling]}
  | .readClosed call =>
    match e.submissions[call]? with
    | some .calling => some (e.place call (if e.closed then .raised else .admitted))
    | _ => none
  | .overlong call =>
    match e.submissions[call]? with
    | some .admitted => some (e.place call .raised)
    | _ => none
  | .register call request blocking =>
    match e.submissions[call]? with
    | some .admitted =>
      if request.requestId∈e.issued then none
      else some {e.place call (.registered request blocking) with
        registry := e.registry++[request.requestId]
        issued := e.issued++[request.requestId]}
    | _ => none
  | .readEvent call =>
    match e.submissions[call]? with
    | some (.registered request blocking) =>
      if B.stopping e.back then some (e.place call (.refused request))
      else (B.call e.back (.submit request)).map
        (fun back => {e.place call (.putting request blocking) with back := back})
    | _ => none
  | .put call =>
    match e.submissions[call]? with
    | some (.putting request _) =>
      (B.call e.back (.enqueue request)).map
        (fun back => {e.place call (.returned request) with back := back})
    | _ => none
  | .full call =>
    match e.submissions[call]? with
    | some (.putting request false) =>
      (B.call e.back (.refuse request)).map
        (fun back => {e.place call (.refused request) with back := back})
    | _ => none
  | .withdraw call =>
    match e.submissions[call]? with
    | some (.refused request) =>
      some {e.place call .raised with registry := e.registry.erase request.requestId}
    | _ => none
  | .shutdown => some {e with shutdowns := e.shutdowns++[.calling]}
  | .proceed call gaveUp => e.shutdowns[call]?.bind (e.proceed B call gaveUp)
  | .work thread env =>
    match e.threads[thread]? with
    | some .resting =>
      (B.work e.back thread env).map
        (fun r => {e.turn thread (begin r.2) with back := r.1})
    | _ => none
  | .claim thread =>
    match e.threads[thread]? with
    | some (.calling id rest) =>
      if id∈e.registry then
        some {e.turn thread (.holding id rest) with registry := e.registry.erase id}
      else some (e.turn thread (begin rest))
    | _ => none
  | .settle thread =>
    match e.threads[thread]? with
    | some (.holding id rest) => some ((e.finish id).turn thread (begin rest))
    | _ => none

end Engine

/-- The runs of a new engine. -/
def engineMachine (B : Backend σ ε) : Machine (Engine σ) (Action ε) where
  starts e := ∃ back, B.starts back ∧ e={back := back, threads := List.replicate B.threads .resting}
  steps e action e' := e.step B action=some e'

end CudaForge.FutureRegistry
