import CudaForge.QueueOrder

/-!
# The worker pool over the bounded queue

`ThreadPool`: workers that pop tasks in a loop, and any number of other
threads that submit tasks or shut the pool down. Every atomic operation, every
critical section of the queue and every task's execution is one step; the
queue's own steps are those of its machine. A task that submits to its own
pool is one more submitting thread. The counters are natural numbers.
-/

namespace CudaForge.WorkerPool

open ConcurrentQueue ThreadPools TransitionRuns

/-- How a task was handed in. -/
inductive Submission where
  /-- `submit`. -/
  | plain
  /-- `submit_with_result`: what the function throws goes to the future. -/
  | packaged
  /-- `submit` of an empty `std::function`. -/
  | empty
  deriving DecidableEq,Repr

/-- A task, named by the call that handed it in. -/
structure Task where
  /-- The number of the call. -/
  call : ℕ
  /-- How it was handed in. -/
  submission : Submission
  deriving DecidableEq,Repr

/-- What a call that hands in a task returns or throws. -/
inductive Reply where
  /-- `true`, or the future. -/
  | accepted
  /-- `false`. -/
  | refused
  | thrown (what : String)
  deriving DecidableEq,Repr

/-- What a caller is told when the queue does not take its task. -/
def Task.refusal (task : Task) : Reply :=
  match task.submission with
  | .packaged => .thrown "ThreadPool::submit_with_result on a stopped pool"
  | .empty => .thrown "ThreadPool::submit received an empty task"
  | .plain => .refused

/-- Where a thread of the pool, or one that calls it, stands. -/
inductive Stage where
  /-- A worker at the head of its loop, or inside `pop`. -/
  | fetching
  /-- `pop` returned `Ok`; `active_` is still to be incremented. -/
  | fetched (task : Task)
  /-- The task is running. -/
  | invoking (task : Task)
  /-- The task has run; `completed_` or `failed_` is still to be incremented. -/
  | settling (failed : Bool)
  /-- `active_` is still to be decremented. -/
  | leaving
  /-- The loop is over. -/
  | exited
  /-- A caller outside the pool. -/
  | resting
  /-- Inside `submit`, before or in `push`. -/
  | submitting (task : Task)
  /-- `push` returned `Ok`; `submitted_` is still to be incremented. -/
  | accepted (task : Task)
  /-- The first to set `stopping_`; the queue is still to be closed. -/
  | closing
  /-- Joining the workers, from this one on. -/
  | joining (worker : ℕ)
  deriving DecidableEq,Repr

/-- The pool, the threads that use it, and what came of their calls. -/
structure ThreadPool where
  /-- How many workers it has; they are its first threads. -/
  workerCount : ℕ
  /-- `tasks_`, with the place of every thread in it. -/
  tasks : Queue Task
  /-- Where every thread stands. -/
  stages : List Stage
  /-- `submitted_`. -/
  submitted : ℕ := 0
  /-- `completed_`. -/
  completed : ℕ := 0
  /-- `failed_`. -/
  failed : ℕ := 0
  /-- `active_`. -/
  active : ℕ := 0
  /-- `stopping_`. -/
  stopping : Bool := false
  /-- How many calls handed in a task. -/
  issued : ℕ := 0
  /-- The tasks that have run, in the order in which they ended. -/
  ran : List Task := []
  /-- What the calls that handed in tasks returned or threw. -/
  replies : List (Task×Reply) := []
  /-- The first `shutdown()` has returned. -/
  joined : Bool := false

/-- A step of one thread. -/
inductive Action where
  /-- A worker calls `pop` and takes the mutex. -/
  | fetch (thread : ℕ)
  /-- A caller enters `submit` or `submit_with_result`. -/
  | submit (thread : ℕ) (submission : Submission)
  /-- It calls `push` and takes the mutex. -/
  | push (thread : ℕ)
  /-- A step inside the queue's `push`, `pop` or `shutdown`. -/
  | inside (action : ConcurrentQueue.Action Task)
  /-- A worker increments `active_`. -/
  | activate (thread : ℕ)
  /-- The task ends, by returning or by throwing. -/
  | run (thread : ℕ) (throws : Bool)
  /-- A worker increments `completed_` or `failed_`. -/
  | count (thread : ℕ)
  /-- A worker decrements `active_`. -/
  | deactivate (thread : ℕ)
  /-- A caller increments `submitted_` and returns. -/
  | acknowledge (thread : ℕ)
  /-- A caller enters `shutdown` and sets `stopping_`. -/
  | stop (thread : ℕ)
  /-- It closes the queue. -/
  | close (thread : ℕ)
  /-- It joins the next worker, or returns. -/
  | join (thread : ℕ)

/-- The steps of the queue that go on with an operation already called. -/
def goesOn : ConcurrentQueue.Action Task → Bool
  | .resume _ => true
  | .wake _ => true
  | .notify _ _ => true
  | .broadcast _ => true
  | _ => false

namespace ThreadPool

/-- A thread goes on to its next stage. -/
def goes (p : ThreadPool) (thread : ℕ) (stage : Stage) : ThreadPool :=
  {p with stages := p.stages.set thread stage}

/-- A thread whose `push` or `pop` was decided goes on with what it returned. -/
def heed (p : ThreadPool) : List (Event Task) → ThreadPool
  | [.answered thread .pop .ok (some task)] => p.goes thread (.fetched task)
  | [.answered thread .pop _ _] => p.goes thread .exited
  | [.answered thread (.push task) .ok _] => p.goes thread (.accepted task)
  | [.answered thread (.push task) _ _] =>
    {p.goes thread .resting with replies := p.replies++[(task,task.refusal)]}
  | _ => p

/-- The queue has moved on. -/
def advance (p : ThreadPool) (q : Queue Task) : ThreadPool :=
  {p.heed (q.history.drop p.tasks.history.length) with tasks := q}

/-- What a step does, if it can be taken now. -/
def step (capacity : ℕ) (p : ThreadPool) : Action → Option ThreadPool
  | .fetch thread =>
    match p.stages[thread]? with
    | some .fetching => (p.tasks.step capacity (.call thread .pop)).map p.advance
    | _ => none
  | .submit thread submission =>
    match p.stages[thread]? with
    | some .resting =>
      let task : Task := ⟨p.issued,submission⟩
      if submission=.empty then
        some {p with issued := p.issued+1, replies := p.replies++[(task,task.refusal)]}
      else some {p.goes thread (.submitting task) with issued := p.issued+1}
    | _ => none
  | .push thread =>
    match p.stages[thread]? with
    | some (.submitting task) => (p.tasks.step capacity (.call thread (.push task))).map p.advance
    | _ => none
  | .inside action => if goesOn action then (p.tasks.step capacity action).map p.advance else none
  | .activate thread =>
    match p.stages[thread]?,p.tasks.threads[thread]? with
    | some (.fetched task),some .idle =>
      some {p.goes thread (.invoking task) with active := p.active+1}
    | _,_ => none
  | .run thread throws =>
    match p.stages[thread]? with
    | some (.invoking task) =>
      -- what a packaged task throws ends up in its future
      some {p.goes thread (.settling (throws && decide (task.submission≠.packaged))) with
        ran := p.ran++[task]}
    | _ => none
  | .count thread =>
    match p.stages[thread]? with
    | some (.settling true) => some {p.goes thread .leaving with failed := p.failed+1}
    | some (.settling false) => some {p.goes thread .leaving with completed := p.completed+1}
    | _ => none
  | .deactivate thread =>
    match p.stages[thread]? with
    | some .leaving => some {p.goes thread .fetching with active := p.active-1}
    | _ => none
  | .acknowledge thread =>
    match p.stages[thread]?,p.tasks.threads[thread]? with
    | some (.accepted task),some .idle => some {p.goes thread .resting with
        submitted := p.submitted+1, replies := p.replies++[(task,.accepted)]}
    | _,_ => none
  | .stop thread =>
    match p.stages[thread]? with
    | some .resting =>
      if p.stopping then some p else some {p.goes thread .closing with stopping := true}
    | _ => none
  | .close thread =>
    match p.stages[thread]? with
    | some .closing => (p.tasks.step capacity (.shutdown thread)).map (fun q =>
        {p.goes thread (.joining 0) with tasks := q})
    | _ => none
  | .join thread =>
    match p.stages[thread]?,p.tasks.threads[thread]? with
    | some (.joining worker),some .idle =>
      if worker < p.workerCount then
        match p.stages[worker]? with
        | some .exited => some (p.goes thread (.joining (worker+1)))
        | _ => none
      else some {p.goes thread .resting with joined := true}
    | _,_ => none

end ThreadPool

/-- The constructor refuses a queue of capacity zero and a pool of no
workers; the callers are outside. -/
def make (capacity workers callers : ℕ) : Option ThreadPool :=
  match ConcurrentQueue.make capacity (workers+callers) with
  | none => none
  | some tasks =>
    if workers=0 then none
    else some {
      workerCount := workers
      tasks := tasks
      stages := List.replicate workers .fetching++List.replicate callers .resting}

/-- The runs of a new pool with a queue of this capacity, any number of
workers and any number of callers. -/
def machine (capacity : ℕ) : Machine ThreadPool Action where
  starts p := ∃ workers callers, make capacity workers callers=some p
  steps p action p' := p.step capacity action=some p'

end CudaForge.WorkerPool
