import CudaForge.GenerationSettings
import CudaForge.PythonBuiltins
import CudaForge.PythonNumbers

/-!
# How a configuration reaches the server

`cudaforge-serve` settles a configuration from its flags and a file, and hands six of
its settings to the server through variables of the environment. The server reads them
over whatever its own file sets. What a file holds, how a float is written and what
`int` says of a text that it refuses are parameters. A mapping has no keys but the
fields'; it gives texts to the engine's names and numbers of any type to its numbers,
and a generation's settings have their own types.
-/

namespace CudaForge.ServingConfiguration

open BinaryFloats GenerationSettings PythonBuiltins PythonNumbers PythonStrings

/-- What the standard library writes. -/
structure Texts where
  /-- A float. -/
  float : FloatNumber binary64 → List Char
  /-- The refusal of a text that is no integer. -/
  invalidLiteral : List Char → String
  /-- A float is not written as an integer. -/
  float_int : ∀ value, int (float value)=none
  /-- Nor with a null character. -/
  float_null : ∀ value, '\x00' ∉ float value

/-- What `str` says of an integer that is too long for it. -/
def digitLimit : String := "Exceeds the limit (4300 digits) for integer string "++
  "conversion; use sys.set_int_max_str_digits() to increase the limit"

/-- `str` of a number, if it may be written. -/
def Texts.str (texts : Texts) : Number → Option (List Char)
  | .int value => PythonStrings.str value
  | .bool value => some (if value=true then "True".toList else "False".toList)
  | .float value => some (texts.float value)

/-- A refusal that ends in a number. -/
def Texts.refusal (texts : Texts) (start : String) (number : Number) : PyError :=
  .valueError (match texts.str number with
    | some text => start++String.ofList text
    | none => digitLimit)

/-- The refusal of a queue that a batch does not fit into. -/
def Texts.misfit (texts : Texts) (queueCapacity maxBatchSize : Number) : PyError :=
  .valueError (match texts.str queueCapacity,texts.str maxBatchSize with
    | some queue,some batch => "queue_capacity ("++String.ofList queue++
      ") must be at least max_batch_size ("++String.ofList batch++")"
    | _,_ => digitLimit)

/-- The constructor of `GenerationConfig`. -/
def generationConfig (texts : Texts) (maxNewTokens : ℤ) (temperature topP : ℚ) (topK : ℤ)
    (seed : Option ℤ) : Except PyError GenerationConfig :=
  if hm : maxNewTokens ≤ 0 then
    .error (texts.refusal "max_new_tokens must be positive, got " (.int maxNewTokens))
  else if ht : temperature<0 then
    .error (texts.refusal "temperature must not be negative, got "
      (.float (.finite temperature)))
  else if hp : 0<topP ∧ topP ≤ 1 then
    if topK<0 then .error (texts.refusal "top_k must not be negative, got " (.int topK))
    else .ok ⟨maxNewTokens.toNat,temperature,topP,topK.toNat,seed,
      Int.lt_toNat.mpr (Int.not_le.mp hm),ht,hp.1,hp.2⟩
  else .error (texts.refusal "top_p must be in (0, 1], got " (.float (.finite topP)))

/-- What a mapping says of a generation; `none` is a key that it lacks. -/
structure GenerationPayload where
  /-- Most tokens to generate. -/
  maxNewTokens : Option ℤ := none
  /-- The temperature. -/
  temperature : Option ℚ := none
  /-- The probability mass that is kept. -/
  topP : Option ℚ := none
  /-- Most candidates kept. -/
  topK : Option ℤ := none
  /-- The seed, which may be null. -/
  seed : Option (Option ℤ) := none

/-- `GenerationConfig(**generation)`. -/
def GenerationPayload.config (texts : Texts) (p : GenerationPayload) :
    Except PyError GenerationConfig :=
  generationConfig texts (p.maxNewTokens.getD 64) (p.temperature.getD 1) (p.topP.getD 1)
    (p.topK.getD 0) (p.seed.getD none)

/-- `EngineConfig`. -/
structure EngineConfig where
  /-- The model to load. -/
  modelName : List Char := "sshleifer/tiny-gpt2".toList
  /-- The device. -/
  device : List Char := "auto".toList
  /-- The element type. -/
  dtype : List Char := "auto".toList
  /-- Most requests of a batch. -/
  maxBatchSize : Number := .int 16
  /-- Longest wait for company, in microseconds. -/
  maxWaitUs : Number := .int 5000
  /-- Most requests that wait. -/
  queueCapacity : Number := .int 1024
  /-- Number of workers. -/
  workerThreads : Number := .int 4
  /-- Number of streams. -/
  cudaStreams : Number := .int 4
  /-- Longest prompt. -/
  maxPromptChars : Number := .int 8192
  /-- Runs before the first request. -/
  warmupIterations : Number := .int 3
  /-- Defaults of a generation. -/
  generation : GenerationConfig := defaultGeneration

/-- `EngineConfig.__post_init__`, which gives the configuration back. -/
def EngineConfig.postInit (texts : Texts) (c : EngineConfig) : Except PyError EngineConfig :=
  if c.maxBatchSize.atMost (.int 0)=true then
    .error (texts.refusal "max_batch_size must be positive, got " c.maxBatchSize)
  else if c.maxWaitUs.below (.int 0)=true then
    .error (texts.refusal "max_wait_us must not be negative, got " c.maxWaitUs)
  else if c.queueCapacity.atMost (.int 0)=true then
    .error (texts.refusal "queue_capacity must be positive, got " c.queueCapacity)
  else if c.workerThreads.atMost (.int 0)=true then
    .error (texts.refusal "worker_threads must be positive, got " c.workerThreads)
  else if c.cudaStreams.atMost (.int 0)=true then
    .error (texts.refusal "cuda_streams must be positive, got " c.cudaStreams)
  else if c.queueCapacity.below c.maxBatchSize=true then
    .error (texts.misfit c.queueCapacity c.maxBatchSize)
  else .ok c

/-- What a mapping says of an engine; `none` is a key that it lacks. -/
structure Payload where
  /-- The model to load. -/
  modelName : Option (List Char) := none
  /-- The device. -/
  device : Option (List Char) := none
  /-- The element type. -/
  dtype : Option (List Char) := none
  /-- Most requests of a batch. -/
  maxBatchSize : Option Number := none
  /-- Longest wait for company. -/
  maxWaitUs : Option Number := none
  /-- Most requests that wait. -/
  queueCapacity : Option Number := none
  /-- Number of workers. -/
  workerThreads : Option Number := none
  /-- Number of streams. -/
  cudaStreams : Option Number := none
  /-- Longest prompt. -/
  maxPromptChars : Option Number := none
  /-- Runs before the first request. -/
  warmupIterations : Option Number := none
  /-- Defaults of a generation. -/
  generation : Option GenerationPayload := none

/-- The fields that a mapping without a generation gives an engine. -/
def Payload.fields (p : Payload) : EngineConfig where
  modelName := p.modelName.getD "sshleifer/tiny-gpt2".toList
  device := p.device.getD "auto".toList
  dtype := p.dtype.getD "auto".toList
  maxBatchSize := p.maxBatchSize.getD (.int 16)
  maxWaitUs := p.maxWaitUs.getD (.int 5000)
  queueCapacity := p.queueCapacity.getD (.int 1024)
  workerThreads := p.workerThreads.getD (.int 4)
  cudaStreams := p.cudaStreams.getD (.int 4)
  maxPromptChars := p.maxPromptChars.getD (.int 8192)
  warmupIterations := p.warmupIterations.getD (.int 3)

/-- `EngineConfig.from_dict`. -/
def fromDict (texts : Texts) (p : Payload) : Except PyError EngineConfig := do
  let config ← p.fields.postInit texts
  match p.generation with
  | none => .ok config
  | some generation =>
    let generation ← generation.config texts
    EngineConfig.postInit texts {config with generation := generation}

/-- `EngineConfig.from_yaml`, given what each path holds. -/
def fromYaml (texts : Texts) (files : List Char → Except PyError Payload) (path : List Char) :
    Except PyError EngineConfig := do
  let payload ← files path
  fromDict texts payload

/-- The flags of an engine. -/
structure Arguments where
  /-- `--config`. -/
  config : Option (List Char) := none
  /-- `--model`. -/
  model : List Char := "sshleifer/tiny-gpt2".toList
  /-- `--max-batch-size`. -/
  maxBatchSize : ℤ := 16
  /-- `--max-wait-us`. -/
  maxWaitUs : ℤ := 5000
  /-- `--queue-capacity`. -/
  queueCapacity : ℤ := 1024
  /-- `--worker-threads`. -/
  workerThreads : ℤ := 4
  /-- `--device`. -/
  device : List Char := "auto".toList
  /-- `--echo-runner`. -/
  echoRunner : Bool := false
  /-- `--continuous`. -/
  continuous : Bool := false

/-- A setting that a flag overrides if it is not at its default. -/
def overridden {α : Type} [DecidableEq α] (value default setting : α) : α :=
  if value≠default then value else setting

/-- `_config_from`. -/
def configFrom (texts : Texts) (files : List Char → Except PyError Payload) (args : Arguments) :
    Except PyError EngineConfig :=
  match args.config with
  | none => EngineConfig.postInit texts
      { modelName := args.model
        device := args.device
        maxBatchSize := .int args.maxBatchSize
        maxWaitUs := .int args.maxWaitUs
        queueCapacity := Number.larger (.int args.queueCapacity) (.int args.maxBatchSize)
        workerThreads := .int args.workerThreads }
  | some path => do
    let config ← fromYaml texts files path
    let config := { config with
      modelName := overridden args.model "sshleifer/tiny-gpt2".toList config.modelName
      device := overridden args.device "auto".toList config.device
      maxBatchSize := overridden (.int args.maxBatchSize) (.int 16) config.maxBatchSize
      maxWaitUs := overridden (.int args.maxWaitUs) (.int 5000) config.maxWaitUs
      queueCapacity := overridden (.int args.queueCapacity) (.int 1024) config.queueCapacity
      workerThreads := overridden (.int args.workerThreads) (.int 4) config.workerThreads }
    EngineConfig.postInit texts
      {config with queueCapacity := config.queueCapacity.larger config.maxBatchSize}

/-- The variables that the server reads. -/
inductive Variable where
  /-- `CUDAFORGE_CONFIG`. -/
  | config
  /-- `CUDAFORGE_MODEL`. -/
  | model
  /-- `CUDAFORGE_DEVICE`. -/
  | device
  /-- `CUDAFORGE_MAX_BATCH`. -/
  | maxBatch
  /-- `CUDAFORGE_MAX_WAIT_US`. -/
  | maxWaitUs
  /-- `CUDAFORGE_QUEUE_CAPACITY`. -/
  | queueCapacity
  /-- `CUDAFORGE_WORKER_THREADS`. -/
  | workerThreads
  /-- `CUDAFORGE_ECHO_RUNNER`. -/
  | echoRunner
  /-- `CUDAFORGE_CONTINUOUS`. -/
  | continuous
  deriving DecidableEq

/-- `os.environ`. -/
abbrev Environ := Variable → Option (List Char)

/-- A variable that is set to a text without null characters. -/
def Environ.set (env : Environ) (key : Variable) (value : List Char) : Environ :=
  fun other => if other=key then some value else env other

/-- `os.environ[key] = value`. -/
def Environ.put (env : Environ) (key : Variable) (value : List Char) : Except PyError Environ :=
  if '\x00' ∈ value then .error (.valueError "embedded null byte") else .ok (env.set key value)

/-- `os.environ[key] = str(value)`. -/
def Environ.putNumber (texts : Texts) (env : Environ) (key : Variable) (value : Number) :
    Except PyError Environ :=
  match texts.str value with
  | none => .error (.valueError digitLimit)
  | some text => env.put key text

/-- `serve` up to the start of the server, with the environment that it starts in. -/
def serve (texts : Texts) (files : List Char → Except PyError Payload) (args : Arguments)
    (env : Environ) : Except PyError Environ := do
  let config ← configFrom texts files args
  let env ← env.put .model config.modelName
  let env ← env.put .device config.device
  let env ← env.putNumber texts .maxBatch config.maxBatchSize
  let env ← env.putNumber texts .maxWaitUs config.maxWaitUs
  let env ← env.putNumber texts .queueCapacity config.queueCapacity
  let env ← env.putNumber texts .workerThreads config.workerThreads
  let env := if args.echoRunner=true then env.set .echoRunner ['1'] else env
  .ok (if args.continuous=true then env.set .continuous ['1'] else env)

/-- `bool(os.environ.get(key))`. -/
def Environ.truthy (env : Environ) (key : Variable) : Bool :=
  ((env key).map fun value => !value.isEmpty).getD false

/-- The path that the environment names, unless it is empty. -/
def Environ.path (env : Environ) : Option (List Char) :=
  (env .config).bind fun path => if path.isEmpty=true then none else some path

/-- What the server starts from: its file, or the defaults. -/
def startingConfig (texts : Texts) (files : List Char → Except PyError Payload)
    (path : Option (List Char)) : Except PyError EngineConfig :=
  match path with
  | none => ({} : EngineConfig).postInit texts
  | some path => fromYaml texts files path

/-- A variable with an integer, over a setting. -/
def Environ.overriding (texts : Texts) (env : Environ) (key : Variable) (setting : Number) :
    Except PyError Number :=
  match env key with
  | none => .ok setting
  | some text =>
    match int text with
    | none => .error (.valueError (texts.invalidLiteral text))
    | some value => .ok (.int value)

/-- `config_from_environment`. -/
def configFromEnvironment (texts : Texts) (files : List Char → Except PyError Payload)
    (env : Environ) : Except PyError EngineConfig := do
  let config ← startingConfig texts files env.path
  let maxBatchSize ← env.overriding texts .maxBatch config.maxBatchSize
  let maxWaitUs ← env.overriding texts .maxWaitUs config.maxWaitUs
  let queueCapacity ← env.overriding texts .queueCapacity config.queueCapacity
  let workerThreads ← env.overriding texts .workerThreads config.workerThreads
  EngineConfig.postInit texts { config with
    modelName := (env .model).getD config.modelName
    device := (env .device).getD config.device
    maxBatchSize := maxBatchSize
    maxWaitUs := maxWaitUs
    queueCapacity := queueCapacity.larger maxBatchSize
    workerThreads := workerThreads }

/-- The bounds that an engine keeps. -/
structure Accepted (c : EngineConfig) : Prop where
  /-- A batch has room. -/
  batch : c.maxBatchSize.atMost (.int 0)=false
  /-- A wait is not negative. -/
  wait : c.maxWaitUs.below (.int 0)=false
  /-- The queue has room. -/
  queue : c.queueCapacity.atMost (.int 0)=false
  /-- There is a worker. -/
  workers : c.workerThreads.atMost (.int 0)=false
  /-- There is a stream. -/
  streams : c.cudaStreams.atMost (.int 0)=false
  /-- A batch fits into the queue. -/
  fits : c.queueCapacity.below c.maxBatchSize=false

/-- What is within its bounds is not refused. -/
theorem postInit_of_accepted (texts : Texts) {c : EngineConfig} (h : Accepted c) :
    c.postInit texts=.ok c := by
  rw [EngineConfig.postInit,if_neg (Bool.eq_false_iff.mp h.batch),
    if_neg (Bool.eq_false_iff.mp h.wait),if_neg (Bool.eq_false_iff.mp h.queue),
    if_neg (Bool.eq_false_iff.mp h.workers),if_neg (Bool.eq_false_iff.mp h.streams),
    if_neg (Bool.eq_false_iff.mp h.fits)]

/-- What is not refused is within its bounds, and given back. -/
theorem accepted_of_postInit {texts : Texts} {c d : EngineConfig} (h : c.postInit texts=.ok d) :
    d=c ∧ Accepted c := by
  rw [EngineConfig.postInit] at h
  split_ifs at h with hb hw hq ht hs hf
  exact ⟨(Except.ok.inj h).symm,⟨Bool.eq_false_iff.mpr hb,Bool.eq_false_iff.mpr hw,
    Bool.eq_false_iff.mpr hq,Bool.eq_false_iff.mpr ht,Bool.eq_false_iff.mpr hs,
    Bool.eq_false_iff.mpr hf⟩⟩

/-- The defaults are within their bounds. -/
theorem accepted_defaults : Accepted {} :=
  ⟨by decide,by decide,by decide,by decide,by decide,by decide⟩

/-- So is what a server starts from. -/
theorem accepted_of_starting {texts : Texts} {files : List Char → Except PyError Payload}
    {path : Option (List Char)} {base : EngineConfig}
    (h : startingConfig texts files path=.ok base) : Accepted base := by
  cases path with
  | none =>
    rw [startingConfig,postInit_of_accepted texts accepted_defaults] at h
    exact Except.ok.inj h ▸ accepted_defaults
  | some path =>
    obtain ⟨payload,-,h⟩ := of_bind_ok h
    obtain ⟨config,hfields,h⟩ := of_bind_ok h
    obtain ⟨hconfig,haccepted⟩ := accepted_of_postInit hfields
    cases hg : payload.generation with
    | none =>
      rw [hg] at h
      rw [←Except.ok.inj h,hconfig]
      exact haccepted
    | some generation =>
      rw [hg] at h
      obtain ⟨generated,-,h⟩ := of_bind_ok h
      obtain ⟨hbase,hwith⟩ := accepted_of_postInit h
      exact hbase ▸ hwith

/-- A configuration that the flags override. -/
def Arguments.over (args : Arguments) (base : EngineConfig) : EngineConfig :=
  { base with
    modelName := overridden args.model "sshleifer/tiny-gpt2".toList base.modelName
    device := overridden args.device "auto".toList base.device
    maxBatchSize := overridden (.int args.maxBatchSize) (.int 16) base.maxBatchSize
    maxWaitUs := overridden (.int args.maxWaitUs) (.int 5000) base.maxWaitUs
    queueCapacity := overridden (.int args.queueCapacity) (.int 1024) base.queueCapacity
    workerThreads := overridden (.int args.workerThreads) (.int 4) base.workerThreads }

/-- A configuration whose queue holds a batch. -/
def EngineConfig.widened (c : EngineConfig) : EngineConfig :=
  {c with queueCapacity := c.queueCapacity.larger c.maxBatchSize}

/-- A configuration with the six settings of another. -/
def EngineConfig.carrying (base c : EngineConfig) : EngineConfig :=
  { base with
    modelName := c.modelName
    device := c.device
    maxBatchSize := c.maxBatchSize
    maxWaitUs := c.maxWaitUs
    queueCapacity := c.queueCapacity
    workerThreads := c.workerThreads }

/-- Over its default a flag is what is set. -/
theorem overridden_default {α : Type} [DecidableEq α] (value default : α) :
    overridden value default default=value := by
  rw [overridden]
  split
  · rfl
  · next h => exact (not_not.mp h).symm

/-- With and without a file, the flags go over what a server would start from. -/
theorem configFrom_eq (texts : Texts) (files : List Char → Except PyError Payload)
    (args : Arguments) : configFrom texts files args=
      (startingConfig texts files args.config >>=
        fun base => (args.over base).widened.postInit texts) := by
  cases hc : args.config with
  | none =>
    rw [configFrom,hc,startingConfig,postInit_of_accepted texts accepted_defaults,ok_bind,
      Arguments.over,EngineConfig.widened]
    simp only [overridden_default]
  | some path =>
    rw [configFrom,hc]
    rfl

@[simp] theorem widened_maxBatchSize (c : EngineConfig) :
    c.widened.maxBatchSize=c.maxBatchSize := rfl

@[simp] theorem widened_maxWaitUs (c : EngineConfig) : c.widened.maxWaitUs=c.maxWaitUs := rfl

@[simp] theorem widened_workerThreads (c : EngineConfig) :
    c.widened.workerThreads=c.workerThreads := rfl

/-- Three checks settle a configuration whose queue was widened, unless the size of a
batch is no number and widens nothing. -/
theorem widened_postInit (texts : Texts) {c : EngineConfig}
    (hs : c.cudaStreams.atMost (.int 0)=false) : c.widened.postInit texts=
    if c.maxBatchSize.atMost (.int 0)=true then
      .error (texts.refusal "max_batch_size must be positive, got " c.maxBatchSize)
    else if c.maxWaitUs.below (.int 0)=true then
      .error (texts.refusal "max_wait_us must not be negative, got " c.maxWaitUs)
    else if c.maxBatchSize.place=none ∧ c.queueCapacity.atMost (.int 0)=true then
      .error (texts.refusal "queue_capacity must be positive, got " c.queueCapacity)
    else if c.workerThreads.atMost (.int 0)=true then
      .error (texts.refusal "worker_threads must be positive, got " c.workerThreads)
    else .ok c.widened := by
  rw [EngineConfig.postInit,widened_maxBatchSize,widened_maxWaitUs,widened_workerThreads]
  by_cases hb : c.maxBatchSize.atMost (.int 0)=true
  · rw [if_pos hb,if_pos hb]
  by_cases hw : c.maxWaitUs.below (.int 0)=true
  · rw [if_neg hb,if_neg hb,if_pos hw,if_pos hw]
  have hqueue : c.widened.queueCapacity.atMost (.int 0)=true ↔
      c.maxBatchSize.place=none ∧ c.queueCapacity.atMost (.int 0)=true :=
    Number.larger_atMost (Bool.eq_false_iff.mpr hb)
  by_cases hq : c.maxBatchSize.place=none ∧ c.queueCapacity.atMost (.int 0)=true
  · have hsame : c.widened.queueCapacity=c.queueCapacity := Number.larger_nan hq.1
    rw [if_neg hb,if_neg hb,if_neg hw,if_neg hw,if_pos (hqueue.mpr hq),if_pos hq,hsame]
  by_cases ht : c.workerThreads.atMost (.int 0)=true
  · rw [if_neg hb,if_neg hb,if_neg hw,if_neg hw,if_neg (mt hqueue.mp hq),if_neg hq,if_pos ht,
      if_pos ht]
  have hstreams : ¬c.widened.cudaStreams.atMost (.int 0)=true := Bool.eq_false_iff.mp hs
  have hfits : ¬c.widened.queueCapacity.below c.maxBatchSize=true :=
    Bool.eq_false_iff.mp (Number.larger_not_below _ _)
  rw [if_neg hb,if_neg hb,if_neg hw,if_neg hw,if_neg (mt hqueue.mp hq),if_neg hq,if_neg ht,
    if_neg ht,if_neg hstreams,if_neg hfits]

/-- What a text that can be set leaves. -/
theorem of_put {env started : Environ} {key : Variable} {value : List Char}
    (h : env.put key value=.ok started) : '\x00' ∉ value ∧ started=env.set key value := by
  rw [Environ.put] at h
  split_ifs at h with hnull
  exact ⟨hnull,(Except.ok.inj h).symm⟩

/-- What a number that can be set leaves. -/
theorem of_putNumber {texts : Texts} {env started : Environ} {key : Variable} {value : Number}
    (h : env.putNumber texts key value=.ok started) :
    ∃ text, texts.str value=some text ∧ started=env.set key text := by
  cases ht : texts.str value with
  | none =>
    rw [Environ.putNumber,ht] at h
    exact absurd h (by simp only [reduceCtorEq,not_false_eq_true])
  | some text =>
    rw [Environ.putNumber,ht] at h
    exact ⟨text,rfl,(of_put h).2⟩

/-- What is written of an integer has no null character. -/
theorem null_notMem_str {value : ℤ} {text : List Char} (h : PythonStrings.str value=some text) :
    '\x00' ∉ text := by
  have hdigit : '\x00' ∉ Nat.toDigits 10 value.natAbs := fun hm =>
    absurd (Nat.isDigit_of_mem_toDigits (by decide) (by decide) hm) (by decide)
  rw [PythonStrings.str] at h
  split_ifs at h with hlong hneg
  · rw [←Option.some.inj h,List.mem_cons]
    exact not_or.mpr ⟨by decide,hdigit⟩
  · rw [←Option.some.inj h]
    exact hdigit

/-- Nor has what is written of another number. -/
theorem Texts.str_null {texts : Texts} {value : Number} {text : List Char}
    (h : texts.str value=some text) : '\x00' ∉ text := by
  cases value with
  | int value => exact null_notMem_str h
  | bool value =>
    rw [←Option.some.inj h]
    cases value <;> decide
  | float value =>
    rw [←Option.some.inj h]
    exact texts.float_null value

/-- What is written of an integer is read as it was, and nothing else is an integer. -/
theorem Texts.int_str {texts : Texts} {value : Number} {text : List Char}
    (h : texts.str value=some text) :
    (∀ number, value=.int number → int text=some number) ∧
      (value.isInt=false → int text=none) := by
  cases value with
  | int value =>
    exact ⟨fun number he => Number.int.inj he ▸ PythonStrings.int_str h,
      fun hf => absurd hf.symm Bool.false_ne_true⟩
  | bool value =>
    rw [←Option.some.inj h]
    exact ⟨nofun,fun _ => by cases value <;> decide⟩
  | float value =>
    rw [←Option.some.inj h]
    exact ⟨nofun,fun _ => texts.float_int value⟩

/-- A number that can be written can be set. -/
theorem putNumber_of_str {texts : Texts} (env : Environ) (key : Variable) {value : Number}
    {text : List Char} (h : texts.str value=some text) :
    env.putNumber texts key value=.ok (env.set key text) := by
  rw [Environ.putNumber,h]
  exact if_neg (Texts.str_null h)

/-- The numbers that are handed over, in their order. -/
def EngineConfig.numbers (c : EngineConfig) : List Number :=
  [c.maxBatchSize,c.maxWaitUs,c.queueCapacity,c.workerThreads]

/-- What a configuration has to keep to be handed over. -/
structure Writable (texts : Texts) (c : EngineConfig) : Prop where
  /-- The name of the model has no null character. -/
  modelName : '\x00' ∉ c.modelName
  /-- Nor has that of the device. -/
  device : '\x00' ∉ c.device
  /-- The four numbers have few enough digits. -/
  numbers : ∀ value∈c.numbers, (texts.str value).isSome=true

/-- What the server's environment says once a configuration was handed over. -/
structure Carried (texts : Texts) (args : Arguments) (config : EngineConfig)
    (env started : Environ) : Prop where
  /-- The name of the model. -/
  model : started .model=some config.modelName
  /-- The device. -/
  device : started .device=some config.device
  /-- The size of a batch. -/
  maxBatch : ∃ text, texts.str config.maxBatchSize=some text ∧ started .maxBatch=some text
  /-- The wait. -/
  maxWaitUs : ∃ text, texts.str config.maxWaitUs=some text ∧ started .maxWaitUs=some text
  /-- The capacity of the queue. -/
  queueCapacity : ∃ text, texts.str config.queueCapacity=some text ∧
    started .queueCapacity=some text
  /-- The number of workers. -/
  workerThreads : ∃ text, texts.str config.workerThreads=some text ∧
    started .workerThreads=some text
  /-- The path is the one that was there. -/
  path : started .config=env .config
  /-- So is the choice of the runner, unless a flag makes it. -/
  echo : started .echoRunner=if args.echoRunner=true then some ['1'] else env .echoRunner
  /-- So is the choice of the engine. -/
  continuous : started .continuous=if args.continuous=true then some ['1'] else env .continuous

/-- The environment in which the server starts. -/
theorem carried_of_serve {texts : Texts} {files : List Char → Except PyError Payload}
    {args : Arguments} {env started : Environ} (h : serve texts files args env=.ok started) :
    ∃ config, configFrom texts files args=.ok config ∧ Writable texts config ∧
      Carried texts args config env started := by
  obtain ⟨config,hconfig,h⟩ := of_bind_ok h
  obtain ⟨env₁,hmodel,h⟩ := of_bind_ok h
  obtain ⟨env₂,hdevice,h⟩ := of_bind_ok h
  obtain ⟨env₃,hbatch,h⟩ := of_bind_ok h
  obtain ⟨env₄,hwait,h⟩ := of_bind_ok h
  obtain ⟨env₅,hqueue,h⟩ := of_bind_ok h
  obtain ⟨env₆,hworkers,h⟩ := of_bind_ok h
  obtain ⟨hnull,rfl⟩ := of_put hmodel
  obtain ⟨hnull',rfl⟩ := of_put hdevice
  obtain ⟨batch,hb,rfl⟩ := of_putNumber hbatch
  obtain ⟨wait,hw,rfl⟩ := of_putNumber hwait
  obtain ⟨queue,hq,rfl⟩ := of_putNumber hqueue
  obtain ⟨workers,ht,rfl⟩ := of_putNumber hworkers
  refine ⟨config,hconfig,⟨hnull,hnull',?_⟩,?_⟩
  · intro value hm
    simp only [EngineConfig.numbers,List.mem_cons,List.not_mem_nil,or_false] at hm
    rcases hm with rfl | rfl | rfl | rfl
    · exact Option.isSome_of_eq_some hb
    · exact Option.isSome_of_eq_some hw
    · exact Option.isSome_of_eq_some hq
    · exact Option.isSome_of_eq_some ht
  · have he := Except.ok.inj h
    subst he
    refine ⟨?_,?_,⟨batch,hb,?_⟩,⟨wait,hw,?_⟩,⟨queue,hq,?_⟩,⟨workers,ht,?_⟩,?_,?_,?_⟩ <;>
      cases args.echoRunner <;> cases args.continuous <;> rfl

/-- A configuration that can be handed over starts the server. -/
theorem serve_of_writable {texts : Texts} {files : List Char → Except PyError Payload}
    {args : Arguments} {config : EngineConfig} (env : Environ)
    (h : configFrom texts files args=.ok config) (hw : Writable texts config) :
    ∃ started, serve texts files args env=.ok started := by
  obtain ⟨hmodel,hdevice,hnumbers⟩ := hw
  obtain ⟨batch,hb⟩ := Option.isSome_iff_exists.mp (hnumbers config.maxBatchSize
    (by simp only [EngineConfig.numbers,List.mem_cons,true_or]))
  obtain ⟨wait,hwait⟩ := Option.isSome_iff_exists.mp (hnumbers config.maxWaitUs
    (by simp only [EngineConfig.numbers,List.mem_cons,true_or,or_true]))
  obtain ⟨queue,hq⟩ := Option.isSome_iff_exists.mp (hnumbers config.queueCapacity
    (by simp only [EngineConfig.numbers,List.mem_cons,true_or,or_true]))
  obtain ⟨workers,ht⟩ := Option.isSome_iff_exists.mp (hnumbers config.workerThreads
    (by simp only [EngineConfig.numbers,List.mem_cons,true_or,or_true]))
  rw [serve,h,ok_bind,Environ.put,if_neg hmodel,ok_bind,Environ.put,if_neg hdevice,ok_bind,
    putNumber_of_str _ _ hb,ok_bind,putNumber_of_str _ _ hwait,ok_bind,
    putNumber_of_str _ _ hq,ok_bind,
    putNumber_of_str _ _ ht,ok_bind]
  exact ⟨_,rfl⟩

/-- An integer is read as it was written. -/
theorem overriding_eq {texts : Texts} {env : Environ} {key : Variable} {value : Number}
    (h : ∃ text, texts.str value=some text ∧ env key=some text) (hi : value.isInt=true)
    (setting : Number) : env.overriding texts key setting=.ok value := by
  obtain ⟨text,hs,he⟩ := h
  obtain ⟨number,rfl⟩ := Number.exists_of_isInt hi
  rw [Environ.overriding,he]
  change (match int text with
    | none => Except.error (PyError.valueError (texts.invalidLiteral text))
    | some value => .ok (Number.int value))=_
  rw [(Texts.int_str hs).1 number rfl]

/-- Any other number is refused where it is read. -/
theorem overriding_error {texts : Texts} {env : Environ} {key : Variable} {value : Number}
    {text : List Char} (hs : texts.str value=some text) (he : env key=some text)
    (hi : value.isInt=false) (setting : Number) :
    env.overriding texts key setting=.error (.valueError (texts.invalidLiteral text)) := by
  rw [Environ.overriding,he]
  change (match int text with
    | none => Except.error (PyError.valueError (texts.invalidLiteral text))
    | some value => .ok (Number.int value))=_
  rw [(Texts.int_str hs).2 hi]

section Reading

variable {texts : Texts} {files : List Char → Except PyError Payload} {args : Arguments}
variable {config : EngineConfig} {env started : Environ}

/-- The server's own file is the one of its environment. -/
theorem Carried.path_eq (h : Carried texts args config env started) : started.path=env.path := by
  rw [Environ.path,h.path]
  rfl

/-- What the server makes of an environment that carries a configuration with integers. -/
theorem configFromEnvironment_carried (ha : Accepted config)
    (h : Carried texts args config env started)
    (hi : ∀ number∈config.numbers, number.isInt=true) :
    configFromEnvironment texts files started=
      (startingConfig texts files env.path).map fun base => base.carrying config := by
  simp only [EngineConfig.numbers,List.mem_cons,List.not_mem_nil,or_false,forall_eq_or_imp,
    forall_eq] at hi
  obtain ⟨hb,hw,hq,ht⟩ := hi
  rw [configFromEnvironment,h.path_eq]
  cases hs : startingConfig texts files env.path with
  | error e => rfl
  | ok base =>
    rw [ok_bind,overriding_eq h.maxBatch hb,ok_bind,overriding_eq h.maxWaitUs hw,ok_bind,
      overriding_eq h.queueCapacity hq,ok_bind,overriding_eq h.workerThreads ht,ok_bind,
      h.model,h.device,Number.larger_of_not_below ha.fits]
    exact postInit_of_accepted texts ⟨ha.batch,ha.wait,ha.queue,ha.workers,
      (accepted_of_starting hs).streams,ha.fits⟩

/-- The first of the numbers that is no integer is refused by the server. -/
theorem configFromEnvironment_refused (h : Carried texts args config env started)
    {number : Number} (hf : config.numbers.find? (fun number => !number.isInt)=some number) :
    ∃ text, texts.str number=some text ∧ configFromEnvironment texts files started=
      (startingConfig texts files env.path >>= fun _ =>
        .error (.valueError (texts.invalidLiteral text))) := by
  rw [configFromEnvironment,h.path_eq]
  rw [EngineConfig.numbers] at hf
  simp only [List.find?_cons_eq_some,Bool.not_eq_true',Bool.not_eq_false',List.find?_nil,
    reduceCtorEq,and_false,or_false] at hf
  -- the numbers before the first that is none are read
  rcases hf with ⟨hb,rfl⟩ | ⟨hb,⟨hw,rfl⟩ | ⟨hw,⟨hq,rfl⟩ | ⟨hq,ht,rfl⟩⟩⟩
  · obtain ⟨text,hs,he⟩ := h.maxBatch
    refine ⟨text,hs,bind_congr fun base => ?_⟩
    rw [overriding_error hs he hb]
    rfl
  · obtain ⟨text,hs,he⟩ := h.maxWaitUs
    refine ⟨text,hs,bind_congr fun base => ?_⟩
    rw [overriding_eq h.maxBatch hb,ok_bind,overriding_error hs he hw]
    rfl
  · obtain ⟨text,hs,he⟩ := h.queueCapacity
    refine ⟨text,hs,bind_congr fun base => ?_⟩
    rw [overriding_eq h.maxBatch hb,ok_bind,overriding_eq h.maxWaitUs hw,ok_bind,
      overriding_error hs he hq]
    rfl
  · obtain ⟨text,hs,he⟩ := h.workerThreads
    refine ⟨text,hs,bind_congr fun base => ?_⟩
    rw [overriding_eq h.maxBatch hb,ok_bind,overriding_eq h.maxWaitUs hw,ok_bind,
      overriding_eq h.queueCapacity hq,ok_bind,overriding_error hs he ht]
    rfl

end Reading

/-- A variable that a flag sets or leaves is what it asks for or what it was. -/
theorem truthy_eq {env started : Environ} {key : Variable} {flag : Bool}
    (h : started key=if flag=true then some ['1'] else env key) :
    started.truthy key=(flag || env.truthy key) := by
  rw [Environ.truthy,h]
  cases flag
  · rfl
  · rfl

/-- `cudaforge-serve` starts exactly when its flags and file are accepted and what it
hands over can be written. If the four numbers are integers, the server's configuration
has the six settings that were handed over and takes everything else from the file of its
own environment, whose errors are its own; when that is the file of the flags, or there
is neither, it is the very configuration that the flags settle. Otherwise the server does
not come up: the first of the four that is a float or a truth value is a text that `int`
refuses. The engine and the runner are those of the flags or of the environment. -/
theorem serve_configures (texts : Texts) (files : List Char → Except PyError Payload)
    (args : Arguments) (env : Environ) :
    ((∃ started, serve texts files args env=.ok started) ↔
      ∃ config, configFrom texts files args=.ok config ∧ Writable texts config) ∧
    ∀ started, serve texts files args env=.ok started →
      ∃ config, configFrom texts files args=.ok config ∧
        ((∀ number∈config.numbers, number.isInt=true) →
          configFromEnvironment texts files started=
            (startingConfig texts files env.path).map (fun base => base.carrying config) ∧
          (args.config=env.path → configFromEnvironment texts files started=.ok config)) ∧
        (∀ number, config.numbers.find? (fun number => !number.isInt)=some number →
          ∃ text, texts.str number=some text ∧ configFromEnvironment texts files started=
            (startingConfig texts files env.path >>= fun _ =>
              .error (.valueError (texts.invalidLiteral text)))) ∧
        started.truthy .continuous=(args.continuous || env.truthy .continuous) ∧
        started.truthy .echoRunner=(args.echoRunner || env.truthy .echoRunner) := by
  refine ⟨⟨fun h => ?_,fun h => ?_⟩,fun started h => ?_⟩
  · obtain ⟨started,h⟩ := h
    obtain ⟨config,hconfig,hw,-⟩ := carried_of_serve h
    exact ⟨config,hconfig,hw⟩
  · obtain ⟨config,hconfig,hw⟩ := h
    exact serve_of_writable env hconfig hw
  · obtain ⟨config,hconfig,-,hcarried⟩ := carried_of_serve h
    obtain ⟨base,hbase,hover⟩ := of_bind_ok ((configFrom_eq texts files args).symm.trans hconfig)
    obtain ⟨he,ha⟩ := accepted_of_postInit hover
    have haccepted : Accepted config := he ▸ ha
    refine ⟨config,hconfig,fun hi => ?_,fun number hf => configFromEnvironment_refused hcarried hf,
      truthy_eq hcarried.continuous,truthy_eq hcarried.echo⟩
    have hread := @configFromEnvironment_carried _ files _ _ _ _ haccepted hcarried hi
    refine ⟨hread,fun hsame => ?_⟩
    rw [hread,←hsame,hbase,he]
    rfl

/-- How the library writes the one float of a file. -/
def waitTexts : Texts where
  float := fun _ => "2500.0".toList
  invalidLiteral := fun _ => "invalid literal for int() with base 10: '2500.0'"
  float_int := fun _ => by decide
  float_null := fun _ => by decide

/-- A batch of thirty-two, without a file, and a file that gives the wait as a float,
with which the server does not come up. -/
theorem serve_configures_batch :
    (∃ started config, serve waitTexts (fun _ => .error listIndexError)
        {maxBatchSize := 32} (fun _ => none)=.ok started ∧
      configFromEnvironment waitTexts (fun _ => .error listIndexError) started=
        .ok config ∧ config.maxBatchSize=.int 32) ∧
    ∃ started, serve waitTexts (fun _ => .ok {maxWaitUs := some (.float (.finite 2500))})
        {config := some ['c']} (fun _ => none)=.ok started ∧
      configFromEnvironment waitTexts
        (fun _ => .ok {maxWaitUs := some (.float (.finite 2500))}) started=
        .error (.valueError "invalid literal for int() with base 10: '2500.0'") := by
  refine ⟨?_,?_⟩
  · obtain ⟨started,hs⟩ := (serve_configures waitTexts
      (fun _ => .error listIndexError) {maxBatchSize := 32} (fun _ => none)).1.mpr
        ⟨_,rfl,by decide,by decide,by decide +kernel⟩
    obtain ⟨config,hconfig,hread,-⟩ := (serve_configures waitTexts
      (fun _ => .error listIndexError) {maxBatchSize := 32} (fun _ => none)).2 started hs
    have he := Except.ok.inj hconfig
    exact ⟨started,config,hs,(hread (by rw [←he]; decide)).2 rfl,by rw [←he]⟩
  · obtain ⟨started,hs⟩ := (serve_configures waitTexts
      (fun _ => .ok {maxWaitUs := some (.float (.finite 2500))})
      {config := some ['c']} (fun _ => none)).1.mpr ⟨_,rfl,by decide,by decide,by decide +kernel⟩
    obtain ⟨config,hconfig,-,hread,-⟩ := (serve_configures waitTexts
      (fun _ => .ok {maxWaitUs := some (.float (.finite 2500))})
      {config := some ['c']} (fun _ => none)).2 started hs
    have he := Except.ok.inj hconfig
    obtain ⟨text,-,hrefused⟩ := hread (.float (.finite 2500)) (by rw [←he]; rfl)
    exact ⟨started,hs,hrefused⟩

/-- What the flags settle, over a file or without one: of all the bounds that a
configuration has to keep, three can still be broken, the one of the batch, the one of
the wait and the one of the workers, which are checked in this order; a queue that is
too short is made as long as a batch, also when its capacity is not positive, unless the
size of a batch is a float that is no number. And a file that sets nothing is like
none. -/
theorem configFrom_settles (texts : Texts) (files : List Char → Except PyError Payload)
    (args : Arguments) :
    configFrom texts files args=(startingConfig texts files args.config >>= fun base =>
      let c := args.over base
      if c.maxBatchSize.atMost (.int 0)=true then
        .error (texts.refusal "max_batch_size must be positive, got " c.maxBatchSize)
      else if c.maxWaitUs.below (.int 0)=true then
        .error (texts.refusal "max_wait_us must not be negative, got " c.maxWaitUs)
      else if c.maxBatchSize.place=none ∧ c.queueCapacity.atMost (.int 0)=true then
        .error (texts.refusal "queue_capacity must be positive, got " c.queueCapacity)
      else if c.workerThreads.atMost (.int 0)=true then
        .error (texts.refusal "worker_threads must be positive, got " c.workerThreads)
      else .ok {c with queueCapacity := c.queueCapacity.larger c.maxBatchSize}) ∧
    ∀ path, files path=.ok {} → configFrom texts files {args with config := some path}=
      configFrom texts files {args with config := none} := by
  refine ⟨?_,fun path hempty => ?_⟩
  · rw [configFrom_eq]
    cases hs : startingConfig texts files args.config with
    | error e => rfl
    | ok base =>
      rw [ok_bind,ok_bind]
      exact widened_postInit texts (accepted_of_starting hs).streams
  · rw [configFrom_eq,configFrom_eq]
    have hfile : startingConfig texts files (some path)=startingConfig texts files none := by
      change (files path >>= fromDict texts)=({} : EngineConfig).postInit texts
      rw [hempty,ok_bind]
      change (({} : EngineConfig).postInit texts >>= fun config => Except.ok config)=_
      rw [postInit_of_accepted texts accepted_defaults,ok_bind]
    exact congrArg (· >>= fun base => (args.over base).widened.postInit texts) hfile

/-- An empty file, and a queue without room. -/
theorem configFrom_settles_empty :
    configFrom waitTexts (fun _ => .ok {}) {config := some ['c'],queueCapacity := 0}=
      configFrom waitTexts (fun _ => .ok {}) {queueCapacity := 0} :=
  (configFrom_settles waitTexts (fun _ => .ok {}) {queueCapacity := 0}).2 ['c'] rfl

end CudaForge.ServingConfiguration
