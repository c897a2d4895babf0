import CudaForge.EscapedText

/-!
# The text exposition of a metrics snapshot

`render_prometheus` writes a snapshot as lines of text. Strings are lists of
characters, and a value is an integer or a float, whose `repr` is a parameter.
Next to it stands a reader of the format: lines end at a line feed, comments begin
with a hash, and a label's value is read from left to right. It gets back every
counter, every gauge and the labels.
-/

namespace CudaForge.TextExposition

open EscapedText

/-- The numeric fields of a snapshot. -/
inductive Field where
  | requestsReceived
  | requestsCompleted
  | requestsFailed
  | requestsRejected
  | requestsExpired
  | batchesProcessed
  | batchedRequests
  | batchesClosedBySize
  | batchesClosedByTimeout
  | tokensGenerated
  | queueDepth
  | averageBatchSize
  | uptimeSeconds
  | requestsPerSecond
  | tokensPerSecond
  | queueDelayP50Ms
  | queueDelayP95Ms
  | queueDelayP99Ms
  | latencyP50Ms
  | latencyP95Ms
  | latencyP99Ms
  | latencyMaxMs
  | latencyMeanMs
  deriving DecidableEq,Repr

/-- An `int` or a `float`. -/
inductive Number (F : Type) where
  | int (value : ℤ)
  | float (value : F)
  deriving DecidableEq,Repr

/-- `MetricsSnapshot`: a number for each field, and the entries of `extra`, their
values as `str` shows them. -/
structure MetricsSnapshot (F : Type) where
  /-- The fields. -/
  value : Field → Number F
  /-- The entries of `extra`. -/
  extra : List (String×List Char) := []

/-- The name of a field. -/
def Field.name : Field → String
  | .requestsReceived => "requests_received"
  | .requestsCompleted => "requests_completed"
  | .requestsFailed => "requests_failed"
  | .requestsRejected => "requests_rejected"
  | .requestsExpired => "requests_expired"
  | .batchesProcessed => "batches_processed"
  | .batchedRequests => "batched_requests"
  | .batchesClosedBySize => "batches_closed_by_size"
  | .batchesClosedByTimeout => "batches_closed_by_timeout"
  | .tokensGenerated => "tokens_generated"
  | .queueDepth => "queue_depth"
  | .averageBatchSize => "average_batch_size"
  | .uptimeSeconds => "uptime_seconds"
  | .requestsPerSecond => "requests_per_second"
  | .tokensPerSecond => "tokens_per_second"
  | .queueDelayP50Ms => "queue_delay_p50_ms"
  | .queueDelayP95Ms => "queue_delay_p95_ms"
  | .queueDelayP99Ms => "queue_delay_p99_ms"
  | .latencyP50Ms => "latency_p50_ms"
  | .latencyP95Ms => "latency_p95_ms"
  | .latencyP99Ms => "latency_p99_ms"
  | .latencyMaxMs => "latency_max_ms"
  | .latencyMeanMs => "latency_mean_ms"

/-- What stands behind a field in `_COUNTERS` or `_GAUGES`. -/
def Field.description : Field → String
  | .requestsReceived => "Requests accepted at the ingress."
  | .requestsCompleted => "Requests that produced a response."
  | .requestsFailed => "Requests whose execution raised."
  | .requestsRejected => "Requests refused because the queue was full."
  | .requestsExpired => "Requests dropped after passing their deadline while queued."
  | .batchesProcessed => "Batches handed to the executor."
  | .batchedRequests => "Requests contained in those batches."
  | .batchesClosedBySize => "Batches closed on reaching max_batch_size."
  | .batchesClosedByTimeout => "Batches closed on the oldest request's deadline."
  | .tokensGenerated => "Tokens produced."
  | .queueDepth => "Requests currently waiting to be batched."
  | .averageBatchSize => "Requests per batch since start."
  | .uptimeSeconds => "Seconds since the registry was created."
  | .requestsPerSecond => "Completed requests per second since start."
  | .tokensPerSecond => "Tokens per second since start."
  | .queueDelayP50Ms => "Median time spent waiting to be batched."
  | .queueDelayP95Ms => "95th percentile queue delay."
  | .queueDelayP99Ms => "99th percentile queue delay."
  | .latencyP50Ms => "Median end-to-end latency."
  | .latencyP95Ms => "95th percentile end-to-end latency."
  | .latencyP99Ms => "99th percentile end-to-end latency."
  | .latencyMaxMs => "Longest end-to-end latency observed."
  | .latencyMeanMs => "Mean end-to-end latency."

/-- The keys of `_COUNTERS`. -/
def counters : List Field :=
  [.requestsReceived,.requestsCompleted,.requestsFailed,.requestsRejected,.requestsExpired,
    .batchesProcessed,.batchedRequests,.batchesClosedBySize,.batchesClosedByTimeout,
    .tokensGenerated]

/-- The keys of `_GAUGES`. -/
def gauges : List Field :=
  [.queueDepth,.averageBatchSize,.uptimeSeconds,.requestsPerSecond,.tokensPerSecond,
    .queueDelayP50Ms,.queueDelayP95Ms,.queueDelayP99Ms,.latencyP50Ms,.latencyP95Ms,
    .latencyP99Ms,.latencyMaxMs,.latencyMeanMs]

/-- The keys of `extra` that `_render_info` makes labels. -/
def labelKeys : List String :=
  ["model","device","runner","scheduler","max_batch_size","max_wait_us"]

/-- The marks of a label can be told apart. -/
theorem marks_distinct : ['\\','"','\n','n'].Nodup := by decide

/-- Backslash, double quote, line feed, and the letter for it. -/
def labelMarks : Marks Char where
  escape := '\\'
  quote := '"'
  line := '\n'
  letter := 'n'
  distinct := marks_distinct

/-- `_escape_label`. -/
def escapeLabel (value : List Char) : List Char := labelMarks.escapeText value

/-- `str` of an integer. -/
def formatInt (value : ℤ) : List Char :=
  if value<0 then '-'::Nat.toDigits 10 value.natAbs else Nat.toDigits 10 value.natAbs

section Rendering

variable {F : Type} (repr : F → List Char)

/-- `_format_value`. -/
def formatValue : Number F → List Char
  | .int value => formatInt value
  | .float value => repr value

/-- What every name begins with. -/
def namePrefix : List Char := "cudaforge_".toList

/-- The name of a counter's sample. -/
def counterName (field : Field) : List Char :=
  namePrefix++(field.name.toList++"_total".toList)

/-- The name of a gauge's sample. -/
def gaugeName (field : Field) : List Char := namePrefix++field.name.toList

/-- The name of the sample that carries the labels. -/
def infoName : List Char := namePrefix++"build_info".toList

/-- The three lines of a sample. -/
def metricLines (name : List Char) (description kind : String) (labels value : List Char) :
    List (List Char) :=
  ["# HELP ".toList++name++ ' '::description.toList,
    "# TYPE ".toList++name++ ' '::kind.toList,
    name++labels++ ' '::value]

/-- The labels that a snapshot carries. -/
def labelsOf (snapshot : MetricsSnapshot F) : List (List Char×List Char) :=
  labelKeys.filterMap (fun key =>
    (snapshot.extra.lookup key).map (fun value => (key.toList,value)))

/-- A label as it is written. -/
def renderLabel (label : List Char×List Char) : List Char :=
  label.1++['=','"']++escapeLabel label.2++['"']

/-- `_render_info`. -/
def renderInfo (snapshot : MetricsSnapshot F) : List (List Char) :=
  let labels := labelsOf snapshot
  if labels=[] then []
  else
    let rendered := [','].intercalate (labels.map renderLabel)
    metricLines infoName "Engine configuration, as labels on a constant." "gauge"
      ('{'::rendered++['}']) ['1']

/-- The lines of `render_prometheus`. -/
def exposedLines (snapshot : MetricsSnapshot F) : List (List Char) :=
  counters.flatMap (fun field => metricLines (counterName field) field.description "counter" []
      (formatValue repr (snapshot.value field)))++
    gauges.flatMap (fun field => metricLines (gaugeName field) field.description "gauge" []
      (formatValue repr (snapshot.value field)))++
    renderInfo snapshot

/-- `render_prometheus`. -/
def renderPrometheus (snapshot : MetricsSnapshot F) : List Char :=
  ['\n'].intercalate (exposedLines repr snapshot)++['\n']

end Rendering

section Reading

/-- A sample of the format. -/
structure Sample (F : Type) where
  /-- Its name. -/
  name : List Char
  /-- Its labels. -/
  labels : List (List Char×List Char)
  /-- Its value. -/
  value : Number F
  deriving DecidableEq,Repr

variable {F : Type} (number : List Char → Option F)

/-- Digits, and nothing but digits. -/
def readDigits (text : List Char) : Option ℕ :=
  if text≠[] ∧ text.all Char.isDigit then some (Nat.ofDigitChars 10 text 0) else none

/-- An integer. -/
def readInt : List Char → Option ℤ
  | '-'::text => (readDigits text).map fun value : ℕ => -(value : ℤ)
  | text => (readDigits text).map fun value : ℕ => (value : ℤ)

/-- A value. -/
def readNumber (text : List Char) : Option (Number F) :=
  match readInt text with
  | some value => some (.int value)
  | none => (number text).map .float

/-- What stands before the first character of a kind, and what stands from it on. -/
def readUntil (stop : Char → Bool) : List Char → List Char×List Char
  | [] => ([],[])
  | c::rest =>
    if stop c then ([],c::rest)
    else ((c::(readUntil stop rest).1),(readUntil stop rest).2)

/-- Labels up to the closing brace, for at most so many of them. -/
def readLabels : ℕ → List Char → Option (List (List Char×List Char)×List Char)
  | 0,_ => none
  | turns+1,text =>
    let key := readUntil (· = '=') text
    match key.2 with
    | '=' :: '"' ::quoted =>
      match labelMarks.readQuoted quoted with
      | some (value,','::rest) =>
        (readLabels turns rest).map fun read => ((key.1,value)::read.1,read.2)
      | some (value,'}'::rest) => some ([(key.1,value)],rest)
      | _ => none
    | _ => none

/-- A line with a sample. -/
def readSample (line : List Char) : Option (Sample F) :=
  let name := readUntil (fun c => c = '{' ∨ c = ' ') line
  match name.2 with
  | ' '::text => (readNumber number text).map fun value => ⟨name.1,[],value⟩
  | '{'::text =>
    match readLabels (text.length+1) text with
    | some (labels,' '::text) => (readNumber number text).map fun value => ⟨name.1,labels,value⟩
    | _ => none
  | _ => none

/-- A line that is neither empty nor a comment. -/
def carriesSample (line : List Char) : Bool := line.head?.any (· ≠ '#')

/-- The physical lines with a sample. -/
def sampleLines (text : List Char) : List (List Char) :=
  (text.splitOn '\n').filter carriesSample

/-- The samples of a text, if every line can be read. -/
def readText (text : List Char) : Option (List (Sample F)) :=
  (sampleLines text).mapM (readSample number)

end Reading

section Values

variable {F : Type} {repr : F → List Char} {number : List Char → Option F}

/-- What `repr` of a float and a reader of floats promise. -/
structure FloatText (repr : F → List Char) (number : List Char → Option F) : Prop where
  /-- The text of a float is read as that float. -/
  back : ∀ value, number (repr value)=some value
  /-- It stays on its line. -/
  line : ∀ value, '\n'∉repr value
  /-- It does not look like an integer. -/
  notInt : ∀ value, readInt (repr value)=none

/-- Digits are read as the number they write. -/
theorem readDigits_toDigits (value : ℕ) : readDigits (Nat.toDigits 10 value)=some value := by
  have hd : (Nat.toDigits 10 value).all Char.isDigit=true :=
    List.all_eq_true.mpr fun _ hm => Nat.isDigit_of_mem_toDigits (by decide) (by decide) hm
  rw [readDigits,if_pos ⟨Nat.toDigits_ne_nil,hd⟩,Nat.ofDigitChars_ten_toDigits]

/-- A text that begins with a digit has no sign. -/
theorem readInt_unsigned {text : List Char} (hd : ∀ c∈text, c.isDigit) :
    readInt text=(readDigits text).map fun value : ℕ => (value : ℤ) := by
  unfold readInt
  split
  · next text =>
    exact absurd (hd '-' List.mem_cons_self) (by decide)
  · rfl

/-- An integer is read as it was written. -/
theorem readInt_formatInt (value : ℤ) : readInt (formatInt value)=some value := by
  rw [formatInt]
  split
  · next hneg =>
    rw [readInt,readDigits_toDigits,Option.map_some,Int.ofNat_natAbs_of_nonpos hneg.le,neg_neg]
  · next hpos =>
    rw [readInt_unsigned (fun _ hm => Nat.isDigit_of_mem_toDigits (by decide) (by decide) hm),
      readDigits_toDigits,Option.map_some,Int.natAbs_of_nonneg (not_lt.mp hpos)]

/-- A value is read as it was written. -/
theorem readNumber_formatValue (h : FloatText repr number) (value : Number F) :
    readNumber number (formatValue repr value)=some value := by
  cases value with
  | int value => rw [formatValue,readNumber,readInt_formatInt]
  | float value => rw [formatValue,readNumber,h.notInt,h.back,Option.map_some]

/-- A value stays on its line. -/
theorem formatValue_line (h : FloatText repr number) (value : Number F) :
    '\n'∉formatValue repr value := by
  have hdigits : ∀ value, '\n'∉Nat.toDigits 10 value := by
    intro value hm
    exact absurd (Nat.isDigit_of_mem_toDigits (by decide) (by decide) hm) (by decide)
  cases value with
  | int value =>
    rw [formatValue,formatInt]
    split
    · exact List.not_mem_cons_of_ne_of_not_mem (by decide) (hdigits _)
    · exact hdigits _
  | float value => exact h.line value

end Values

section Names

/-- What every name of a sample has: it can be told from a comment, and what
comes behind it from the name. -/
structure Plain (name : List Char) : Prop where
  /-- It does not begin a comment. -/
  begins : ∀ rest, carriesSample (name++rest)=true
  /-- It stays on its line. -/
  line : '\n'∉name
  /-- It ends where labels or a value begin. -/
  ends : ∀ c∈name, (decide (c = '{' ∨ c = ' '))=false

/-- What holds of the characters of a literal holds of its text. -/
theorem chars_all {p : Char → Prop} [DecidablePred p] {chars : List Char} {text : String}
    (ht : text=String.ofList chars) (hc : chars.all (fun c => decide (p c))=true) :
    ∀ c∈text.toList, p c := by
  rw [ht,String.toList_ofList]
  exact fun c hm => of_decide_eq_true (List.all_eq_true.mp hc c hm)

/-- A character that can stand in a name. -/
def Named (c : Char) : Prop := c ≠ '\n' ∧ ¬(c = '{' ∨ c = ' ')

instance namedDecidable (c : Char) : Decidable (Named c) := instDecidableAnd

/-- The fields' names are made of such characters. -/
theorem name_named (field : Field) : ∀ c∈field.name.toList, Named c := by
  cases field <;> exact chars_all rfl (by decide)

/-- So is every name that has the prefix in front of such characters. -/
theorem prefixed_plain {rest : List Char} (hr : ∀ c∈rest, Named c) : Plain (namePrefix++rest) := by
  have hp : ∀ c∈namePrefix, Named c := chars_all rfl (by decide)
  have hall : ∀ c∈namePrefix++rest, Named c := by
    intro c hm
    rcases List.mem_append.mp hm with hm | hm
    · exact hp c hm
    · exact hr c hm
  exact ⟨fun _ => rfl,fun hm => (hall _ hm).1 rfl,fun c hm => decide_eq_false (hall c hm).2⟩

/-- The name of a counter. -/
theorem counterName_plain (field : Field) : Plain (counterName field) := by
  have ht : ∀ c∈"_total".toList, Named c := chars_all rfl (by decide)
  refine prefixed_plain fun c hm => ?_
  rcases List.mem_append.mp hm with hm | hm
  · exact name_named field c hm
  · exact ht c hm

/-- The name of a gauge. -/
theorem gaugeName_plain (field : Field) : Plain (gaugeName field) :=
  prefixed_plain (name_named field)

/-- The name of the information. -/
theorem infoName_plain : Plain infoName := prefixed_plain (chars_all rfl (by decide))

/-- The texts of the comments stay on their lines. -/
theorem description_line (field : Field) : '\n'∉field.description.toList := by
  have h : ∀ c∈field.description.toList, c ≠ '\n' := by
    cases field <;> exact chars_all rfl (by decide)
  exact fun hm => h _ hm rfl

/-- A key ends where its value begins, and stays on its line. -/
theorem key_plain : ∀ key∈labelKeys, '\n'∉key.toList ∧
    ∀ c∈key.toList, (decide (c = '='))=false := by
  have h : labelKeys.all (fun key => key.toList.all fun c =>
      !decide (c = '\n') && !decide (c = '='))=true := by decide +kernel
  intro key hm
  have hk := List.all_eq_true.mp (List.all_eq_true.mp h key hm)
  refine ⟨fun hn => ?_,fun c hc => ?_⟩
  · exact Bool.false_ne_true (hk _ hn)
  · exact (Bool.not_eq_true' _).mp (Bool.and_eq_true_iff.mp (hk c hc)).2

end Names

section Pieces

variable {F : Type} {repr : F → List Char} {number : List Char → Option F}

/-- A piece is read up to the character that ends it. -/
theorem readUntil_append {stop : Char → Bool} {piece rest : List Char} {c : Char}
    (hp : ∀ d∈piece, stop d=false) (hc : stop c=true) :
    readUntil stop (piece++c::rest)=(piece,c::rest) := by
  induction piece with
  | nil => rw [List.nil_append,readUntil,if_pos hc]
  | cons d piece ih =>
    have hd : ¬stop d=true := by rw [hp d List.mem_cons_self]; exact Bool.false_ne_true
    rw [List.cons_append,readUntil,if_neg hd,ih (fun e he => hp e (List.mem_cons_of_mem d he))]

/-- A label in front of something else. -/
theorem renderLabel_append (label : List Char×List Char) (rest : List Char) :
    renderLabel label++rest=
      label.1++ '=' :: '"' ::(labelMarks.escapeText label.2++labelMarks.quote::rest) := by
  rw [renderLabel,escapeLabel,List.append_assoc,List.append_assoc,List.append_assoc]
  rfl

/-- Labels are read as they were written. -/
theorem readLabels_rendered {labels : List (List Char×List Char)} (hne : labels≠[])
    (hk : ∀ label∈labels, ∀ c∈label.1, (decide (c = '='))=false) {turns : ℕ}
    (ht : labels.length ≤ turns) (rest : List Char) :
    readLabels turns ([','].intercalate (labels.map renderLabel)++ '}'::rest)=
      some (labels,rest) := by
  induction labels generalizing turns with
  | nil => exact absurd rfl hne
  | cons label labels ih =>
    obtain ⟨turns,rfl⟩ := Nat.exists_eq_add_of_lt (Nat.zero_lt_of_lt ht)
    rw [Nat.zero_add] at ht ⊢
    have hkey := hk label List.mem_cons_self
    cases labels with
    | nil =>
      rw [List.map_cons,List.map_nil,List.intercalate_singleton,renderLabel_append,readLabels,
        readUntil_append hkey (decide_eq_true rfl)]
      simp only [labelMarks.readQuoted_escapeText]
    | cons next labels =>
      have hrest := ih (List.cons_ne_nil next labels)
        (fun other hm => hk other (List.mem_cons_of_mem _ hm)) (Nat.le_of_succ_le_succ ht)
      rw [List.map_cons] at hrest
      rw [List.map_cons,List.map_cons,List.intercalate_cons_cons,List.append_assoc,
        List.append_assoc,renderLabel_append,readLabels,
        readUntil_append hkey (decide_eq_true rfl)]
      simp only [labelMarks.readQuoted_escapeText,List.cons_append,List.nil_append,hrest,
        Option.map_some]

/-- There are at least as many characters as labels. -/
theorem labels_length (labels : List (List Char×List Char)) :
    labels.length ≤ ([','].intercalate (labels.map renderLabel)).length := by
  have hpos : ∀ label, 1 ≤ (renderLabel label).length := by
    intro label
    rw [renderLabel,List.length_append]
    exact Nat.le_add_left 1 _
  induction labels with
  | nil => exact Nat.zero_le _
  | cons label labels ih =>
    cases labels with
    | nil =>
      rw [List.map_cons,List.map_nil,List.intercalate_singleton]
      exact hpos label
    | cons next labels =>
      rw [List.map_cons] at ih
      rw [List.map_cons,List.map_cons,List.intercalate_cons_cons,List.length_append,
        List.length_append,List.length_cons]
      have h := hpos label
      omega

/-- A sample without labels is read as it was written. -/
theorem readSample_plain (h : FloatText repr number) {name : List Char} (hn : Plain name)
    (value : Number F) :
    readSample number (name++[]++ ' '::formatValue repr value)=some ⟨name,[],value⟩ := by
  rw [List.append_nil,readSample,readUntil_append hn.ends (by decide)]
  simp only [readNumber_formatValue h,Option.map_some]

/-- A sample with labels is read as it was written. -/
theorem readSample_labels (h : FloatText repr number) {name : List Char} (hn : Plain name)
    {labels : List (List Char×List Char)} (hne : labels≠[])
    (hk : ∀ label∈labels, ∀ c∈label.1, (decide (c = '='))=false) (value : Number F) :
    readSample number (name++('{'::[','].intercalate (labels.map renderLabel)++['}'])++
      ' '::formatValue repr value)=some ⟨name,labels,value⟩ := by
  have hlen := labels_length labels
  have henough : labels.length ≤ ([','].intercalate (labels.map renderLabel)++
      '}' :: ' '::formatValue repr value).length+1 := by
    rw [List.length_append]
    omega
  have hlabels := readLabels_rendered hne hk henough (' '::formatValue repr value)
  rw [List.append_assoc,List.cons_append,List.cons_append,List.append_assoc,List.cons_append,
    List.nil_append,readSample,readUntil_append hn.ends (by decide)]
  simp only [hlabels,readNumber_formatValue h,Option.map_some]

end Pieces

section Documents

variable {F : Type} {repr : F → List Char} {number : List Char → Option F}

/-- The samples that a snapshot stands for: one for each counter and gauge, and
its labels if it has any. -/
def samplesOf (snapshot : MetricsSnapshot F) : List (Sample F) :=
  counters.map (fun field => ⟨counterName field,[],snapshot.value field⟩)++
    gauges.map (fun field => ⟨gaugeName field,[],snapshot.value field⟩)++
    if labelsOf snapshot=[] then [] else [⟨infoName,labelsOf snapshot,.int 1⟩]

/-- A line feed behind joined lines begins an empty line. -/
theorem intercalate_line {lines : List (List Char)} (hne : lines≠[]) :
    ['\n'].intercalate lines++['\n']=['\n'].intercalate (lines++[[]]) := by
  induction lines with
  | nil => exact absurd rfl hne
  | cons line lines ih =>
    cases lines with
    | nil =>
      rw [List.cons_append,List.nil_append,List.intercalate_cons_cons,
        List.intercalate_singleton,List.intercalate_singleton,List.append_nil]
    | cons next lines =>
      rw [List.intercalate_cons_cons,List.append_assoc,List.append_assoc,
        ih (List.cons_ne_nil next lines)]
      rfl

/-- The lines come back where the text is split. -/
theorem sampleLines_joined {lines : List (List Char)} (hne : lines≠[])
    (hl : ∀ line∈lines, '\n'∉line) :
    sampleLines (['\n'].intercalate lines++['\n'])=lines.filter carriesSample := by
  have hall : ∀ line∈lines++[[]], '\n'∉line := by
    intro line hm
    rcases List.mem_append.mp hm with hm | hm
    · exact hl line hm
    · rw [List.mem_singleton.mp hm]
      exact List.not_mem_nil
  have hlast : carriesSample []=false := rfl
  rw [sampleLines,intercalate_line hne,List.splitOn_intercalate '\n' hall
    (List.append_ne_nil_of_left_ne_nil hne _),List.filter_append,
    List.filter_cons_of_neg (by rw [hlast]; exact Bool.false_ne_true),List.filter_nil,
    List.append_nil]

/-- Two of a sample's lines are comments. -/
theorem metricLines_filter {name : List Char} (hn : Plain name) (description kind : String)
    (labels value : List Char) :
    (metricLines name description kind labels value).filter carriesSample=
      [name++labels++ ' '::value] := by
  have hhelp : ∀ rest : List Char, carriesSample ("# HELP ".toList++rest)=false := fun _ => rfl
  have htype : ∀ rest : List Char, carriesSample ("# TYPE ".toList++rest)=false := fun _ => rfl
  rw [metricLines,List.append_assoc,List.append_assoc,
    List.filter_cons_of_neg (by rw [hhelp]; exact Bool.false_ne_true),
    List.filter_cons_of_neg (by rw [htype]; exact Bool.false_ne_true),
    List.filter_cons_of_pos (by rw [List.append_assoc]; exact hn.begins _),List.filter_nil]

/-- A sample's lines are single lines. -/
theorem metricLines_line {name labels value : List Char} {description kind : String}
    (hn : Plain name) (hd : '\n'∉description.toList) (hk : '\n'∉kind.toList)
    (hl : '\n'∉labels) (hv : '\n'∉value) :
    ∀ line∈metricLines name description kind labels value, '\n'∉line := by
  have hspace : ∀ {text : List Char}, '\n'∉text → '\n'∉ ' '::text :=
    fun ht => List.not_mem_cons_of_ne_of_not_mem (by decide) ht
  have hjoin : ∀ {left right : List Char}, '\n'∉left → '\n'∉right → '\n'∉left++right :=
    fun hleft hright hm => (List.mem_append.mp hm).elim hleft hright
  intro line hm
  rw [metricLines,List.mem_cons,List.mem_cons,List.mem_singleton] at hm
  rcases hm with rfl | rfl | rfl
  · exact hjoin (hjoin (by decide) hn.line) (hspace hd)
  · exact hjoin (hjoin (by decide) hn.line) (hspace hk)
  · exact hjoin (hjoin hn.line hl) (hspace hv)

/-- A label is written on a single line. -/
theorem renderLabel_line {label : List Char×List Char} (hk : '\n'∉label.1) :
    '\n'∉renderLabel label := by
  intro hm
  rw [renderLabel,List.mem_append,List.mem_append,List.mem_append] at hm
  rcases hm with ((hm | hm) | hm) | hm
  · exact hk hm
  · exact absurd hm (by decide)
  · exact labelMarks.line_not_mem label.2 hm
  · exact absurd hm (by decide)

/-- So are several. -/
theorem labels_line {labels : List (List Char×List Char)} (hk : ∀ label∈labels, '\n'∉label.1) :
    '\n'∉[','].intercalate (labels.map renderLabel) := by
  induction labels with
  | nil => exact List.not_mem_nil
  | cons label labels ih =>
    have hfirst := renderLabel_line (hk label List.mem_cons_self)
    have hrest := ih (fun other hm => hk other (List.mem_cons_of_mem label hm))
    cases labels with
    | nil =>
      rw [List.map_cons,List.map_nil,List.intercalate_singleton]
      exact hfirst
    | cons next labels =>
      intro hm
      rw [List.map_cons] at hrest
      rw [List.map_cons,List.map_cons,List.intercalate_cons_cons,List.mem_append,
        List.mem_append] at hm
      rcases hm with (hm | hm) | hm
      · exact hfirst hm
      · exact absurd hm (by decide)
      · exact hrest hm

/-- What holds of a snapshot's labels. -/
theorem labelsOf_plain (snapshot : MetricsSnapshot F) :
    ∀ label∈labelsOf snapshot, '\n'∉label.1 ∧ ∀ c∈label.1, (decide (c = '='))=false := by
  intro label hm
  obtain ⟨key,hkey,he⟩ := List.mem_filterMap.mp hm
  obtain ⟨value,_,rfl⟩ := Option.map_eq_some_iff.mp he
  exact key_plain key hkey

/-- A label is an entry of `extra` under one of the keys. -/
theorem mem_labelsOf {snapshot : MetricsSnapshot F} {label : List Char×List Char} :
    label∈labelsOf snapshot ↔
      ∃ key∈labelKeys, snapshot.extra.lookup key=some label.2 ∧ key.toList=label.1 := by
  rw [labelsOf,List.mem_filterMap]
  constructor
  · rintro ⟨key,hk,he⟩
    obtain ⟨value,hv,rfl⟩ := Option.map_eq_some_iff.mp he
    exact ⟨key,hk,hv,rfl⟩
  · rintro ⟨key,hk,hv,he⟩
    exact ⟨key,hk,Option.map_eq_some_iff.mpr ⟨label.2,hv,by rw [he]⟩⟩

/-- The physical lines that carry a sample. -/
theorem exposedLines_filter (snapshot : MetricsSnapshot F) :
    (exposedLines repr snapshot).filter carriesSample=
      counters.map (fun field =>
        counterName field++[]++ ' '::formatValue repr (snapshot.value field))++
      gauges.map (fun field =>
        gaugeName field++[]++ ' '::formatValue repr (snapshot.value field))++
      if labelsOf snapshot=[] then [] else
        [infoName++('{'::[','].intercalate ((labelsOf snapshot).map renderLabel)++['}'])++
          ' '::['1']] := by
  have hinfo : (renderInfo snapshot).filter carriesSample=
      if labelsOf snapshot=[] then [] else
        [infoName++('{'::[','].intercalate ((labelsOf snapshot).map renderLabel)++['}'])++
          ' '::['1']] := by
    rw [renderInfo]
    split
    · rfl
    · exact metricLines_filter infoName_plain _ _ _ _
  rw [exposedLines,List.filter_append,List.filter_append,List.filter_flatMap,
    List.filter_flatMap,hinfo]
  simp only [metricLines_filter (counterName_plain _),metricLines_filter (gaugeName_plain _),
    List.map_eq_flatMap]

/-- Every line of the text is a single line. -/
theorem exposedLines_line (h : FloatText repr number) (snapshot : MetricsSnapshot F) :
    ∀ line∈exposedLines repr snapshot, '\n'∉line := by
  intro line hm
  rw [exposedLines,List.mem_append,List.mem_append,List.mem_flatMap,List.mem_flatMap] at hm
  rcases hm with (⟨field,_,hm⟩ | ⟨field,_,hm⟩) | hm
  · exact metricLines_line (counterName_plain field) (description_line field) (by decide)
      List.not_mem_nil (formatValue_line h _) line hm
  · exact metricLines_line (gaugeName_plain field) (description_line field) (by decide)
      List.not_mem_nil (formatValue_line h _) line hm
  · rw [renderInfo] at hm
    split at hm
    · exact absurd hm List.not_mem_nil
    · refine metricLines_line infoName_plain (by decide) (by decide) ?_ (by decide) line hm
      have hlabels := labels_line (fun label hm => (labelsOf_plain snapshot label hm).1)
      intro hm
      rcases List.mem_append.mp hm with hm | hm
      · exact List.not_mem_cons_of_ne_of_not_mem (by decide) hlabels hm
      · exact absurd hm (by decide)

/-- Reading the lines one by one reads them all. -/
theorem mapM_of_map {α β : Type} {f : α → Option β} {texts : List α} {read : List β}
    (h : texts.map f=read.map some) : texts.mapM f=some read := by
  have htexts : (texts.map f).mapM id=texts.mapM f := List.mapM_map
  have hreads : (read.map some).mapM id=some read := by
    rw [List.mapM_map]
    exact (List.mapM_pure (m := Option) (f := id)).trans (congrArg some (List.map_id read))
  rw [←htexts,h,hreads]

/-- The names of the samples are different. -/
theorem names_nodup :
    (counters.map counterName++gauges.map gaugeName++[infoName]).Nodup := by
  decide +kernel

/-- For every snapshot, each line of the text that is not a comment is read as one
sample; they are the counters, the gauges and the labels, which are the entries of
`extra` under the listed keys, with the strings they had. -/
theorem render_lossless (h : FloatText repr number) (snapshot : MetricsSnapshot F) :
    (sampleLines (renderPrometheus repr snapshot)).map (readSample number)=
      (samplesOf snapshot).map some ∧
    readText number (renderPrometheus repr snapshot)=some (samplesOf snapshot) ∧
    ((samplesOf snapshot).map Sample.name).Nodup ∧
    ∀ key value, (key.toList,value)∈labelsOf snapshot ↔
      key∈labelKeys ∧ snapshot.extra.lookup key=some value := by
  have hne : exposedLines repr snapshot≠[] := List.cons_ne_nil _ _
  have hlines := sampleLines_joined hne (exposedLines_line h snapshot)
  have hread : (sampleLines (renderPrometheus repr snapshot)).map (readSample number)=
      (samplesOf snapshot).map some := by
    rw [renderPrometheus,hlines,exposedLines_filter,samplesOf]
    rw [List.map_append,List.map_append,List.map_append,List.map_append,List.map_map,
      List.map_map,List.map_map,List.map_map]
    have hcounters : readSample number∘(fun field =>
        counterName field++[]++ ' '::formatValue repr (snapshot.value field))=
        some∘(fun field => ⟨counterName field,[],snapshot.value field⟩) :=
      funext fun field => readSample_plain h (counterName_plain field) _
    have hgauges : readSample number∘(fun field =>
        gaugeName field++[]++ ' '::formatValue repr (snapshot.value field))=
        some∘(fun field => ⟨gaugeName field,[],snapshot.value field⟩) :=
      funext fun field => readSample_plain h (gaugeName_plain field) _
    rw [hcounters,hgauges]
    congr 1
    split
    · rfl
    · next hlabels =>
      exact congrArg (fun read => [read]) (readSample_labels h infoName_plain hlabels
        (fun label hm => (labelsOf_plain snapshot label hm).2) (.int 1))
  refine ⟨hread,mapM_of_map hread,?_,?_⟩
  · have hsub : ((samplesOf snapshot).map Sample.name).Sublist
        (counters.map counterName++gauges.map gaugeName++[infoName]) := by
      rw [samplesOf,List.map_append,List.map_append,List.map_map,List.map_map]
      refine List.Sublist.append_left ?_ _
      split
      · exact List.nil_sublist _
      · exact List.Sublist.refl _
    exact names_nodup.sublist hsub
  · intro key value
    rw [mem_labelsOf]
    constructor
    · rintro ⟨other,hk,hv,he⟩
      rw [String.toList_inj.mp he] at hk hv
      exact ⟨hk,hv⟩
    · rintro ⟨hk,hv⟩
      exact ⟨key,hk,hv,rfl⟩

end Documents

section Labels

/-- Two floats. -/
inductive SampleFloat where
  | half
  | tiny
  deriving DecidableEq,Repr

/-- Their texts in Python. -/
def SampleFloat.text : SampleFloat → List Char
  | .half => "0.5".toList
  | .tiny => "1e-07".toList

/-- Reading them. -/
def SampleFloat.read (text : List Char) : Option SampleFloat :=
  if text="0.5".toList then some .half else if text="1e-07".toList then some .tiny else none

/-- A snapshot whose labels mix the three symbols. -/
def nastySnapshot : MetricsSnapshot SampleFloat where
  value field := if field=.uptimeSeconds then .float .tiny
    else if field=.averageBatchSize then .float .half else .int 12
  extra := [("runner","a\\\n\"b".toList),("replicas","2".toList),
    ("model","\\n\\\\\"\n".toList)]

/-- Their labels come back. -/
theorem nastySnapshot_lossless :
    readText SampleFloat.read (renderPrometheus SampleFloat.text nastySnapshot)=
      some (samplesOf nastySnapshot) ∧
    labelsOf nastySnapshot=[("model".toList,"\\n\\\\\"\n".toList),
      ("runner".toList,"a\\\n\"b".toList)] := by
  have htext : FloatText SampleFloat.text SampleFloat.read := by
    constructor <;> intro value <;> cases value <;> decide
  exact ⟨(render_lossless htext nastySnapshot).2.1,by decide⟩

end Labels

end CudaForge.TextExposition
