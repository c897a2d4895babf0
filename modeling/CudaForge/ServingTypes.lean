import CudaForge.CacheBlocks
import CudaForge.GenerationSettings

/-!
# Requests and sequences

A request as it moves through the queue, and a sequence in flight as the
scheduler and the runner see it. Clock readings are rational numbers.
-/

namespace CudaForge.ServingTypes

open CacheBlocks GenerationSettings

/-- A unit of work moving through the queue. -/
structure Request where
  /-- Its identifier. -/
  requestId : String
  /-- The text to continue. -/
  prompt : String
  /-- How to sample. -/
  generation : GenerationConfig
  /-- When it was made. -/
  enqueuedAt : ℚ
  /-- When it left the queue. -/
  dequeuedAt : Option ℚ := none
  /-- The time past which it is worthless. -/
  deadline : Option ℚ := none
  deriving DecidableEq

/-- The deadline has passed. -/
def Request.expired (request : Request) (now : ℚ) : Bool :=
  match request.deadline with
  | none => false
  | some deadline => decide (deadline≤now)

/-- One sequence in flight. -/
structure SequenceState where
  /-- The id the scheduler gave it. -/
  sequenceId : SequenceId
  /-- The text to continue. -/
  prompt : String
  /-- How to sample. -/
  generation : GenerationConfig
  /-- The tokens generated so far. -/
  tokens : List String := []
  /-- The model emitted its end marker. -/
  stoppedEarly : Bool := false
  /-- Length of the prompt, when the runner reports it. -/
  promptTokens : ℕ := 0
  deriving DecidableEq

namespace SequenceState

/-- Tokens generated so far. -/
def generated (state : SequenceState) : ℕ := state.tokens.length

/-- Stopped by the model, or out of budget. -/
def finished (state : SequenceState) : Bool :=
  state.stoppedEarly || decide (state.generation.maxNewTokens ≤ state.generated)

end SequenceState

/-- What a runner may write to a sequence. -/
structure Progress where
  /-- The tokens generated so far. -/
  tokens : List String
  /-- The model emitted its end marker. -/
  stoppedEarly : Bool
  /-- Length of the prompt. -/
  promptTokens : ℕ
  deriving DecidableEq

/-- A sequence after the runner wrote to it. -/
def SequenceState.advanced (state : SequenceState) (progress : Progress) : SequenceState :=
  {state with
    tokens := progress.tokens
    stoppedEarly := progress.stoppedEarly
    promptTokens := progress.promptTokens}

end CudaForge.ServingTypes
