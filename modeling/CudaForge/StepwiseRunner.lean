import CudaForge.ServingTypes
import CudaForge.TokenSampling

/-!
# The step-wise runner over a causal model

`TransformersStepwiseRunner`: it owns the model's cache, whose rows join and
leave between the steps, and keeps rows, cache, mask and last tokens in one
order. Shorter rows are padded on the left, and positions are read off the
mask. The model and the tokenizer are parameters; a tensor entry of the cache
stands for what the heads hold at one position. A failed call leaves no
state.
-/

namespace CudaForge.StepwiseRunner

open CacheBlocks PythonBuiltins GenerationSettings ServingTypes BatchTensors TokenSampling

/-- What the tokenizer returns for a batch of prompts. -/
structure Encoded where
  /-- Token ids, padding included. -/
  inputIds : Tensor ℕ
  /-- Ones at the tokens, zeros at the padding. -/
  attentionMask : Tensor ℕ

/-- The tokenizer, set to pad on the left. -/
structure Tokenizer where
  /-- A batch of prompts, padded and truncated. -/
  encode : List String → Encoded
  /-- The text of tokens, special ones skipped. -/
  decode : List ℕ → String
  /-- The token that ends a sequence. -/
  eosTokenId : Option ℕ

/-- One layer of a cache, a row for each sequence of the batch. -/
structure Layer (κ : Type) where
  /-- Its keys. -/
  keys : Tensor κ
  /-- Its values. -/
  values : Tensor κ

/-- A key-value cache. -/
structure Cache (κ : Type) where
  /-- Its layers. -/
  layers : List (Layer κ)

/-- The arguments of a model call. -/
structure ModelCall (κ : Type) where
  /-- The new tokens of each row. -/
  inputIds : Tensor ℕ
  /-- The mask over cached and new tokens. -/
  attentionMask : Tensor ℕ
  /-- The positions of the new tokens. -/
  positionIds : Tensor ℕ
  /-- The cache so far. -/
  pastKeyValues : Option (Cache κ)

/-- The result of a model call. -/
structure ModelOutput (κ : Type) where
  /-- The logits of each row at each new token. -/
  logits : List (List (List ℚ))
  /-- The cache, the new tokens included. -/
  pastKeyValues : Cache κ

/-- What the runner is built with. -/
structure Backend (κ : Type) where
  /-- The model. -/
  model : ModelCall κ → ModelOutput κ
  /-- The tokenizer. -/
  tokenizer : Tokenizer
  /-- The normalised exponentials used for sampling. -/
  softmax : Softmax

/-- The state of the runner. -/
structure Runner (κ : Type) where
  /-- Sequence ids in cache-row order. -/
  rows : List SequenceId := []
  /-- The running cache. -/
  cache : Option (Cache κ) := none
  /-- Its mask. -/
  mask : Option (Tensor ℕ) := none
  /-- The last token of each row. -/
  last : Option (Tensor ℕ) := none
  /-- Prefill calls so far. -/
  prefills : ℕ := 0
  /-- Decode steps so far. -/
  steps : ℕ := 0

variable {κ : Type}

/-- What an operation of the tensor library returns, or its complaint. -/
def orRaise {α : Type} (message : String) : Option α → Except PyError α
  | some result => .ok result
  | none => .error (.runtimeError message)

/-- `cat` along the batch dimension. -/
def catRows {α : Type} (t u : Tensor α) : Except PyError (Tensor α) :=
  orRaise "Sizes of tensors must match except in dimension 0" (t.stack u)

/-- `cat` along the length. -/
def catColumns {α : Type} (t u : Tensor α) : Except PyError (Tensor α) :=
  orRaise "Sizes of tensors must match except in dimension 1" (t.beside u)

/-- `index_select` along the batch dimension. -/
def indexSelect {α : Type} (t : Tensor α) (keep : List ℕ) : Except PyError (Tensor α) :=
  orRaise "index out of range in self" (t.select keep)

/-- A condition the code asserts. -/
def asserted {α : Type} : Option α → Except PyError α
  | some value => .ok value
  | none => .error (.assertionError "")

/-- A list subscript. -/
def subscript {α : Type} (xs : List α) (index : ℕ) : Except PyError α :=
  match xs[index]? with
  | some value => .ok value
  | none => .error listIndexError

/-- `zip` of two lists whose lengths must agree. -/
def zipStrict {α β : Type} (xs : List α) (ys : List β) : Except PyError (List (α×β)) :=
  if xs.length=ys.length then .ok (xs.zip ys)
  else if xs.length<ys.length then
    .error (.valueError "zip() argument 2 is longer than argument 1")
  else .error (.valueError "zip() argument 2 is shorter than argument 1")

/-- `_left_pad`: pads on the left, so newest entries stay aligned. -/
def leftPad {α : Type} [Zero α] (tensor : Tensor α) (toLength : ℕ) : Tensor α :=
  let deficit : ℤ := toLength-tensor.width
  if deficit≤0 then tensor else tensor.padZeros deficit.toNat

/-- `_positions`: what a left-padded mask implies; subtraction stops at zero. -/
def positions (mask : Tensor ℕ) : Tensor ℕ :=
  mask.mapRows (fun row => (cumulative 0 row).map (·-1)) (by
    intro row
    rw [List.length_map,length_cumulative])

/-- The length of a cache's first layer. -/
def firstLength (cache : Cache κ) : Except PyError ℕ :=
  match cache.layers with
  | [] => .error listIndexError
  | layer::_ => .ok layer.keys.width

/-- The layers of two caches, each padded to the common length and stacked. -/
def mergeLayers [Zero κ] (common : ℕ) :
    List (Layer κ) → List (Layer κ) → Except PyError (List (Layer κ))
  | [],_ => .ok []
  | _::_,[] => .error listIndexError
  | existing::layers,incoming::others => do
    let keys ← catRows (leftPad existing.keys common) (leftPad incoming.keys common)
    let values ← catRows (leftPad existing.values common) (leftPad incoming.values common)
    let rest ← mergeLayers common layers others
    .ok ({keys := keys, values := values}::rest)

/-- `_merge_cache`: new rows below the running cache. -/
def mergeCache [Zero κ] (runner : Runner κ) (incoming : Cache κ) (incomingMask : Tensor ℕ) :
    Except PyError (Runner κ) :=
  match runner.cache with
  | none => .ok {runner with cache := some incoming, mask := some incomingMask}
  | some cache =>
    if runner.rows=[] then .ok {runner with cache := some incoming, mask := some incomingMask}
    else do
      let mask ← asserted runner.mask
      let existingLength ← firstLength cache
      let incomingLength ← firstLength incoming
      let common := max existingLength incomingLength
      let merged ← mergeLayers common cache.layers incoming.layers
      let newMask ← catRows (leftPad mask common) (leftPad incomingMask common)
      .ok {runner with cache := some {layers := merged}, mask := some newMask}

/-- `batch_select_indices` of the cache. -/
def batchSelect (keep : List ℕ) : List (Layer κ) → Except PyError (List (Layer κ))
  | [] => .ok []
  | layer::layers => do
    let keys ← indexSelect layer.keys keep
    let values ← indexSelect layer.values keep
    let rest ← batchSelect keep layers
    .ok ({keys := keys, values := values}::rest)

/-- `_keep_rows`: every batch-indexed structure reduced to some rows. -/
def keepRows (runner : Runner κ) (keep : List ℕ) : Except PyError (Runner κ) :=
  if keep=[] then .ok {runner with cache := none, mask := none, last := none, rows := []}
  else do
    let cache ← asserted runner.cache
    let mask ← asserted runner.mask
    let last ← asserted runner.last
    let layers ← batchSelect keep cache.layers
    let newMask ← indexSelect mask keep
    let newLast ← indexSelect last keep
    let rows ← keep.mapM (subscript runner.rows)
    .ok {runner with
      cache := some {layers := layers}, mask := some newMask, last := some newLast, rows := rows}

/-- A sequence with the token picked for it: the end marker finishes it and
adds no token. -/
def recordToken (tokenizer : Tokenizer) (state : SequenceState) (token : ℕ) : SequenceState :=
  if tokenizer.eosTokenId=some token then {state with stoppedEarly := true}
  else {state with tokens := state.tokens++[tokenizer.decode [token]]}

/-- `_record`. -/
def record (tokenizer : Tokenizer) (states : List SequenceState) (tokens : List ℕ) :
    Except PyError (List SequenceState) := do
  let pairs ← zipStrict states tokens
  .ok (pairs.map (fun pair => recordToken tokenizer pair.1 pair.2))

/-- The logits at the last position of each row. -/
def lastLogits (logits : List (List (List ℚ))) : Except PyError (List (List ℚ)) :=
  logits.mapM (fun row =>
    match row.getLast? with
    | some last => .ok last
    | none => .error (.indexError "index -1 is out of bounds for dimension 1 with size 0"))

/-- The last tokens with those of new rows below. -/
def appendLast (last : Option (Tensor ℕ)) (first : Tensor ℕ) : Except PyError (Tensor ℕ) :=
  match last with
  | none => .ok first
  | some before => catRows before first

/-- The model call of `prefill`. -/
def prefillCall (encoded : Encoded) : ModelCall κ where
  inputIds := encoded.inputIds
  attentionMask := encoded.attentionMask
  positionIds := positions encoded.attentionMask
  pastKeyValues := none

/-- `prefill`: the prompts' rows join the batch and get their first tokens. -/
def prefill [Zero κ] (backend : Backend κ) (draw : Draw) (runner : Runner κ)
    (states : List SequenceState) : Except PyError (Runner κ×List SequenceState) :=
  if states=[] then .ok (runner,[])
  else do
    let encoded := backend.tokenizer.encode (states.map SequenceState.prompt)
    let mask := encoded.attentionMask
    let output := backend.model (prefillCall encoded)
    let merged ← mergeCache runner output.pastKeyValues mask
    let rows := merged.rows++states.map SequenceState.sequenceId
    let lengths ← zipStrict states (mask.rows.map List.sum)
    let counted := lengths.map (fun pair => {pair.1 with promptTokens := pair.2})
    let logits ← lastLogits output.logits
    let first ← sample backend.softmax draw logits (states.map SequenceState.generation)
    let last ← appendLast merged.last (Tensor.column first)
    let recorded ← record backend.tokenizer counted first
    .ok ({merged with rows := rows, last := some last, prefills := runner.prefills+1},recorded)

/-- The model call of `decode_step`. -/
def stepCall (last mask : Tensor ℕ) (cache : Cache κ) : ModelCall κ where
  inputIds := last
  attentionMask := mask
  positionIds := (positions mask).lastColumns 1
  pastKeyValues := some cache

/-- The sequences of a step that are not finished. -/
def activeStates (states : List SequenceState) : List SequenceState :=
  states.filter (fun state => !state.finished)

/-- The rows of the wanted sequences: where one has been retired since the last
step, its row is dropped. -/
def dropRetired (runner : Runner κ) (wanted : List SequenceId) : Except PyError (Runner κ) :=
  let keep := positionsOf (fun row => decide (row∈wanted)) runner.rows
  if keep.length≠runner.rows.length then keepRows runner keep else .ok runner

/-- `decode_step` up to its model call: rows of sequences that are not active
are dropped, and the mask grows by the new token. There may be nothing to do. -/
def prepareStep (runner : Runner κ) (states : List SequenceState) :
    Except PyError (Runner κ×Option (ModelCall κ)) :=
  if activeStates states=[] ∨ runner.cache.isNone ∨ runner.last.isNone then .ok (runner,none)
  else do
    let wanted := (activeStates states).map SequenceState.sequenceId
    let kept ← dropRetired {runner with steps := runner.steps+1} wanted
    if kept.rows=[] then .ok (kept,none)
    else do
      let mask ← asserted kept.mask
      let grown ← catColumns mask (Tensor.onesLike (mask.firstColumns 1))
      let last ← asserted kept.last
      let cache ← asserted kept.cache
      .ok ({kept with mask := some grown},some (stepCall last grown cache))

/-- The last of some sequences that carries an id. -/
def byId (states : List SequenceState) (row : SequenceId) : Except PyError SequenceState :=
  match states.reverse.find? (fun state => decide (state.sequenceId=row)) with
  | some state => .ok state
  | none => .error (.keyError (toString row))

/-- The sequences as the caller sees them once some of them were written to. -/
def written (states updated : List SequenceState) : List SequenceState :=
  states.map (fun state =>
    (updated.find? (fun other => decide (other.sequenceId=state.sequenceId))).getD state)

/-- `decode_step`: one more token for every active sequence. -/
def decodeStep (backend : Backend κ) (draw : Draw) (runner : Runner κ)
    (states : List SequenceState) : Except PyError (Runner κ×List SequenceState) := do
  let (prepared,call) ← prepareStep runner states
  match call with
  | none => .ok (prepared,states)
  | some call =>
    let output := backend.model call
    let ordered ← prepared.rows.mapM (byId (activeStates states))
    let logits ← lastLogits output.logits
    let tokens ← sample backend.softmax draw logits (ordered.map SequenceState.generation)
    let recorded ← record backend.tokenizer ordered tokens
    .ok ({prepared with
      cache := some output.pastKeyValues, last := some (Tensor.column tokens)},
      written states recorded)

/-- `evict`: the row of a sequence is dropped, if there is one. -/
def evict (runner : Runner κ) (sequence : SequenceId) : Except PyError (Runner κ) :=
  if sequence∈runner.rows then
    keepRows runner (positionsOf (fun row => decide (row≠sequence)) runner.rows)
  else .ok runner

end CudaForge.StepwiseRunner
