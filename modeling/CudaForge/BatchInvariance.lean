import CudaForge.OneLayerModel
import CudaForge.RunnerSteps
import CudaForge.TransitionRuns

/-!
# Batch invariance of the step-wise runner

A session is a runner with the sequences it was given. Batches join, decode
steps are called with all sequences, in any order, and sequences are evicted,
interleaved in any way. At every point each sequence is what the runner makes
of it alone in as many steps, and the runner's rows, cache, mask and last
tokens describe the same sequences in one order.
-/

namespace CudaForge.BatchInvariance

open CacheBlocks PythonBuiltins GenerationSettings ServingTypes BatchTensors TokenSampling
open StepwiseRunner RunnerTables SequenceCourses RunnerSteps TransitionRuns OneLayerModel

/-- A sequence that was given to the runner. -/
structure Tracked where
  /-- The sequence as it was given. -/
  arrival : SequenceState
  /-- The sequence as it is. -/
  state : SequenceState
  /-- Decode steps since its prefill. -/
  steps : ℕ
  deriving DecidableEq

/-- A runner in use. -/
structure Session (κ : Type) where
  /-- The runner. -/
  runner : Runner κ := {}
  /-- The sequences not evicted yet. -/
  live : List Tracked := []
  /-- The evicted ones. -/
  departed : List Tracked := []

/-- A call of the runner, with what the generator draws in it. -/
inductive Action where
  /-- A batch joins. -/
  | prefill (draw : Draw) (arrivals : List SequenceState)
  /-- A decode step with these sequences. -/
  | decode (draw : Draw) (order : List Tracked)
  /-- A sequence is evicted. -/
  | evict (sequence : SequenceId)

/-- The ids of sequences. -/
def trackedIds (sequences : List Tracked) : List SequenceId :=
  sequences.map (fun tracked => tracked.state.sequenceId)

section Runs

variable {κ : Type} [Zero κ] (backend : Backend κ) (tokensOf : String → List ℕ) (vocabulary : ℕ)

/-- What a call does. -/
def perform (s : Session κ) : Action → Except PyError (Session κ)
  | .prefill draw arrivals => do
    let (runner,states) ← prefill backend draw s.runner arrivals
    .ok {s with
      runner := runner
      live := s.live++(arrivals.zip states).map (fun pair => ⟨pair.1,pair.2,0⟩)}
  | .decode draw order => do
    let (runner,states) ← decodeStep backend draw s.runner (order.map Tracked.state)
    .ok {s with
      runner := runner
      live := (order.zip states).map
        (fun pair => ⟨pair.1.arrival,pair.2,pair.1.steps+1⟩)}
  | .evict sequence => do
    let runner ← evict s.runner sequence
    .ok {s with
      runner := runner
      live := s.live.filter (fun tracked => decide (tracked.state.sequenceId≠sequence))
      departed := s.departed++
        s.live.filter (fun tracked => decide (tracked.state.sequenceId=sequence))}

/-- A sequence that may join: new, greedy, and with a prompt of at least one
token. -/
structure Joins (live : List Tracked) (arrival : SequenceState) : Prop where
  fresh : arrival.sequenceId∉trackedIds live
  unstarted : Unstarted arrival
  prompt_pos : 0<(tokensOf arrival.prompt).length
  fit : Fit vocabulary arrival.generation

/-- The protocol: batches of new sequences, decode steps with all sequences. -/
def Respects (s : Session κ) : Action → Prop
  | .prefill _ arrivals => (arrivals.map SequenceState.sequenceId).Nodup ∧
    ∀ arrival∈arrivals, Joins tokensOf vocabulary s.live arrival
  | .decode _ order => order.Perm s.live
  | .evict _ => True

instance (live : List Tracked) (arrival : SequenceState) :
    Decidable (Joins tokensOf vocabulary live arrival) :=
  decidable_of_iff (arrival.sequenceId∉trackedIds live ∧
      (arrival.tokens=[] ∧ arrival.stoppedEarly=false) ∧
      0<(tokensOf arrival.prompt).length ∧ Fit vocabulary arrival.generation)
    ⟨fun h => ⟨h.1,⟨h.2.1.1,h.2.1.2⟩,h.2.2.1,h.2.2.2⟩,
      fun h => ⟨h.fresh,⟨h.unstarted.no_tokens,h.unstarted.not_stopped⟩,h.prompt_pos,h.fit⟩⟩

instance (s : Session κ) (action : Action) :
    Decidable (Respects tokensOf vocabulary s action) :=
  match action with
  | .prefill _ arrivals => inferInstanceAs (Decidable (_ ∧ ∀ arrival∈arrivals, _))
  | .decode _ order => inferInstanceAs (Decidable (order.Perm s.live))
  | .evict _ => inferInstanceAs (Decidable True)

/-- The calls that go through. -/
def calls : Machine (Session κ) Action where
  starts s := s={}
  steps s action t := perform backend s action=.ok t

/-- The sessions that keep to the protocol. -/
def sessions : Machine (Session κ) Action :=
  (calls backend).guarded (Respects tokensOf vocabulary)

/-- A sequence alone with a runner of its own: its prefill and so many decode
steps. -/
def alone (draws : ℕ → Draw) (arrival : SequenceState) :
    ℕ → Except PyError (Runner κ×List SequenceState)
  | 0 => prefill backend (draws 0) {} [arrival]
  | steps+1 => do
    let (runner,states) ← alone draws arrival steps
    decodeStep backend (draws (steps+1)) runner states

end Runs

variable {κ : Type}

/-- Rows, cache, mask and last tokens have one batch length, and each mask row
hides some entries and shows the rest, as many together as the cache is long. -/
def Aligned (runner : Runner κ) : Prop :=
  runner.rows=[] ∧ runner.cache=none ∧ runner.mask=none ∧ runner.last=none ∨
    ∃ cache mask last, runner.cache=some cache ∧ runner.mask=some mask ∧
      runner.last=some last ∧ mask.batch=runner.rows.length ∧
      last.batch=runner.rows.length ∧ last.width=1 ∧ cache.layers≠[] ∧
      (∀ layer∈cache.layers, Shaped layer runner.rows.length mask.width) ∧
      ∀ row∈mask.rows, ∃ hidden shown, hidden+shown=mask.width ∧ row=leftMask hidden shown

/-- A row of a runner holds what the only row of another holds: the last
token, as many visible entries, and keys and values of one history. -/
def SameRow (stores : Stores κ) (runner : Runner κ) (index : ℕ) (solo : Runner κ) : Prop :=
  ∃ cache mask last soloCache soloMask soloLast, runner.cache=some cache ∧
    runner.mask=some mask ∧ runner.last=some last ∧ solo.cache=some soloCache ∧
    solo.mask=some soloMask ∧ solo.last=some soloLast ∧ last.row index=soloLast.row 0 ∧
    (mask.row index).sum=(soloMask.row 0).sum ∧ ∃ history,
      stores history (cacheRow cache mask index) ∧
      stores history (cacheRow soloCache soloMask 0)

/-- In a model call of a decode step each row belongs to a sequence that is
not finished, its mask counts the prompt's tokens and the generated ones, and
the new token's position is one less. -/
def FedRight (order : List Tracked) (rows : List SequenceId) (call : ModelCall κ) : Prop :=
  ∀ index, ∀ row∈rows[index]?, ∃ tracked∈order, tracked.state.sequenceId=row ∧
    tracked.state.finished=false ∧
    (call.attentionMask.row index).sum=
      tracked.state.promptTokens+tracked.state.generated ∧
    call.positionIds.row index=[(call.attentionMask.row index).sum-1]

/-- A sequence with a token recorded for it, unless it was finished. -/
def recorded (tokenizer : Tokenizer) (state : SequenceState) (token : ℕ) : SequenceState :=
  if state.finished then state else recordToken tokenizer state token

/-- A decode step with these sequences asks the model this call and nothing
else. Every sequence that is not finished has a row; it is fed, at the right
position, the token it is fed alone, and has its new token in the next row of
last tokens. -/
structure Called [Zero κ] (backend : Backend κ) (draw : Draw) (s : Session κ)
    (order : List Tracked) (token : Tracked → ℕ) (next : Runner κ) (call : ModelCall κ) :
    Prop where
  /-- Another model with the same answer to this call gives the same step. -/
  only_call : ∀ model, model call=backend.model call →
    decodeStep {backend with model := model} draw s.runner (order.map Tracked.state)=
      decodeStep backend draw s.runner (order.map Tracked.state)
  cache_kept : next.cache=some (backend.model call).pastKeyValues
  fed_right : FedRight order next.rows call
  all_fed : ∀ tracked∈order, tracked.state.finished=false →
    tracked.state.sequenceId∈next.rows
  tokens : ∀ index, ∀ row∈next.rows[index]?, ∀ tracked∈order, tracked.state.sequenceId=row →
    (∀ draws, ∃ solo last,
      alone backend draws tracked.arrival tracked.steps=.ok (solo,[tracked.state]) ∧
      solo.last=some last ∧ call.inputIds.row index=last.row 0) ∧
    ∃ last, next.last=some last ∧ last.row index=[token tracked]

/-- A decode step with these sequences goes through and records one token for
each that is not finished. If there is none it does nothing. -/
def Decodes [Zero κ] (backend : Backend κ) (draw : Draw) (s : Session κ)
    (order : List Tracked) : Prop :=
  ∃ next token, decodeStep backend draw s.runner (order.map Tracked.state)=
      .ok (next,order.map (fun tracked =>
        recorded backend.tokenizer tracked.state (token tracked))) ∧
    ((∀ tracked∈order, tracked.state.finished=true) → next=s.runner) ∧
    ((∃ tracked∈order, tracked.state.finished=false) →
      ∃ call, Called backend draw s order token next call)

/-- The session is batch invariant at this point. -/
structure BatchInvariant [Zero κ] (backend : Backend κ) (stores : Stores κ)
    (s : Session κ) : Prop where
  aligned : Aligned s.runner
  /-- Every sequence is what it is alone after as many steps. -/
  same_alone : ∀ tracked∈s.live++s.departed, ∀ draws, ∃ solo,
    alone backend draws tracked.arrival tracked.steps=.ok (solo,[tracked.state])
  within_budget : ∀ tracked∈s.live++s.departed,
    tracked.state.generated≤tracked.state.generation.maxNewTokens
  /-- Every row holds what the row of its sequence alone holds. -/
  row_order : ∀ index, ∀ row∈s.runner.rows[index]?, ∃ tracked∈s.live,
    tracked.state.sequenceId=row ∧ ∀ draws, ∃ solo,
      alone backend draws tracked.arrival tracked.steps=.ok (solo,[tracked.state]) ∧
      SameRow stores s.runner index solo
  /-- The next decode step would feed the right positions. -/
  fed_right : ∀ order, order.Perm s.live → ∀ prepared call,
    prepareStep s.runner (order.map Tracked.state)=.ok (prepared,some call) →
      FedRight order prepared.rows call
  /-- The next decode step feeds and records one token a sequence. -/
  decodes : ∀ draw order, order.Perm s.live → Decodes backend draw s order

/-- The course of a sequence up to here. -/
def courseOf (tokenizer : Tokenizer) (tokensOf : String → List ℕ) (logitsOf : History → List ℚ)
    (tracked : Tracked) : Course :=
  Course.after tokenizer tokensOf logitsOf tracked.arrival tracked.steps

/-- What a session has given to the runner follows its courses. -/
structure Follows (backend : Backend κ) (tokensOf : String → List ℕ)
    (logitsOf : History → List ℚ) (stores : Stores κ) (depth vocabulary : ℕ) (s : Session κ) :
    Prop where
  joined : ∀ tracked∈s.live++s.departed, Unstarted tracked.arrival ∧
    0<(tokensOf tracked.arrival.prompt).length ∧ Fit vocabulary tracked.arrival.generation ∧
    tracked.state=(courseOf backend.tokenizer tokensOf logitsOf tracked).state
  rows : ∃ courses, Holds stores depth s.runner courses ∧
    Covers (s.live.map (courseOf backend.tokenizer tokensOf logitsOf)) courses

variable [Zero κ] {backend : Backend κ} {tokensOf : String → List ℕ}
variable {logitsOf : History → List ℚ} {stores : Stores κ} {depth vocabulary : ℕ}
variable {s : Session κ}

/-- Alone a sequence follows its course, and its row is the runner's only
one. -/
theorem alone_ok (hm : ReadsHistory backend.model stores logitsOf depth vocabulary)
    (ht : PadsLeft backend.tokenizer tokensOf) {arrival : SequenceState}
    (hp : 0<(tokensOf arrival.prompt).length) (hf : Fit vocabulary arrival.generation)
    (draws : ℕ → Draw) (steps : ℕ) :
    ∃ solo, alone backend draws arrival steps=.ok (solo,
        [(Course.after backend.tokenizer tokensOf logitsOf arrival steps).state]) ∧
      Holds stores depth solo
        [Course.after backend.tokenizer tokensOf logitsOf arrival steps] := by
  induction steps with
  | zero =>
    exact prefill_ok (draws 0) hm ht holds_fresh
      (by simpa only [List.mem_singleton,forall_eq] using hp)
      (by simpa only [List.mem_singleton,forall_eq] using hf)
  | succ steps ih =>
    obtain ⟨solo,hs,hh⟩ := ih
    set course := Course.after backend.tokenizer tokensOf logitsOf arrival steps with hcourse
    have hcover : Covers [course] [course] :=
      ⟨List.nodup_singleton _,fun _ hc => hc,fun _ hc _ => hc⟩
    have hrows : stepRows [course] [course]=[course] := by
      rw [stepRows]
      by_cases ha : isActive course=true
      · rw [List.filter_cons_of_pos ha,List.filter_nil,ite_self]
      · rw [if_pos (by rw [List.filter_cons_of_neg ha,List.filter_nil])]
    obtain ⟨next,hn,hnext⟩ := decodeStep_ok (draws (steps+1)) hm hh hcover (by
      intro other ho
      rw [List.mem_singleton.mp ho,hcourse,(after_keeps steps).2]
      exact hf)
    rw [hrows] at hnext
    refine ⟨next,?_,hnext⟩
    rw [alone,hs,ok_bind]
    exact hn

/-- Zipped with its image a list is mapped. -/
theorem zip_map_self {α β : Type} (xs : List α) (f : α → β) :
    xs.zip (xs.map f)=xs.map (fun x => (x,f x)) := by
  conv_lhs => rw [←List.map_id xs,List.map_map,List.zip_map']
  rfl

omit [Zero κ] in
/-- A new session follows. -/
theorem follows_fresh :
    Follows backend tokensOf logitsOf stores depth vocabulary ({} : Session κ) where
  joined := fun _ hm => absurd hm List.not_mem_nil
  rows := ⟨[],holds_fresh,List.nodup_nil,fun _ hm => absurd hm List.not_mem_nil,
    fun _ hm => absurd hm List.not_mem_nil⟩

/-- What a sequence that joins becomes. -/
def joinedAs (tokenizer : Tokenizer) (tokensOf : String → List ℕ) (logitsOf : History → List ℚ)
    (arrival : SequenceState) : Tracked :=
  ⟨arrival,(Course.start tokenizer tokensOf logitsOf arrival).state,0⟩

/-- What a decode step makes of a sequence. -/
def steppedTo (tokenizer : Tokenizer) (tokensOf : String → List ℕ) (logitsOf : History → List ℚ)
    (tracked : Tracked) : Tracked :=
  {tracked with
    state := ((courseOf tokenizer tokensOf logitsOf tracked).advance tokenizer logitsOf).state
    steps := tracked.steps+1}

namespace Follows

variable (h : Follows backend tokensOf logitsOf stores depth vocabulary s)
include h

omit [Zero κ] in
/-- A sequence's id is that of its course. -/
theorem trackedIds_eq : trackedIds s.live=
    (s.live.map (courseOf backend.tokenizer tokensOf logitsOf)).map
      (fun course => course.state.sequenceId) := by
  rw [trackedIds,List.map_map]
  refine List.map_congr_left ?_
  intro tracked hm
  rw [(h.joined tracked (List.mem_append_left _ hm)).2.2.2]
  rfl

omit [Zero κ] in
/-- The runner's rows are of sequences that fit. -/
theorem fit {courses : List Course}
    (hc : Covers (s.live.map (courseOf backend.tokenizer tokensOf logitsOf)) courses) :
    ∀ course∈courses, Fit vocabulary course.state.generation := by
  intro course hm
  obtain ⟨tracked,hl,rfl⟩ := List.mem_map.mp (hc.known course hm)
  rw [courseOf,(after_keeps tracked.steps).2]
  exact (h.joined tracked (List.mem_append_left _ hl)).2.2.1

omit [Zero κ] in
/-- The sequences of a step, in any order, are those of their courses. -/
theorem states_eq {order : List Tracked} (hperm : order.Perm s.live) :
    order.map Tracked.state=
      (order.map (courseOf backend.tokenizer tokensOf logitsOf)).map Course.state := by
  rw [List.map_map]
  refine List.map_congr_left ?_
  intro tracked ho
  exact (h.joined tracked (List.mem_append_left _ (hperm.mem_iff.mp ho))).2.2.2

omit [Zero κ] h in
/-- The sequences in any order are covered by the same rows. -/
theorem covers_order {courses : List Course} {order : List Tracked} (hperm : order.Perm s.live)
    (hc : Covers (s.live.map (courseOf backend.tokenizer tokensOf logitsOf)) courses) :
    Covers (order.map (courseOf backend.tokenizer tokensOf logitsOf)) courses := by
  have hpc : (order.map (courseOf backend.tokenizer tokensOf logitsOf)).Perm
      (s.live.map (courseOf backend.tokenizer tokensOf logitsOf)) := hperm.map _
  exact ⟨(hpc.map _).nodup_iff.mpr hc.distinct,
    fun course hm => hpc.mem_iff.mpr (hc.known course hm),
    fun course hl ha => hc.present course (hpc.mem_iff.mp hl) ha⟩

/-- A batch that keeps to the protocol joins. -/
theorem prefill (hm : ReadsHistory backend.model stores logitsOf depth vocabulary)
    (ht : PadsLeft backend.tokenizer tokensOf) {draw : Draw} {arrivals : List SequenceState}
    (hr : Respects tokensOf vocabulary s (.prefill draw arrivals)) :
    ∃ t, perform backend s (.prefill draw arrivals)=.ok t ∧
      Follows backend tokensOf logitsOf stores depth vocabulary t := by
  obtain ⟨hnodup,hjoins⟩ := hr
  obtain ⟨courses,hh,hc⟩ := h.rows
  obtain ⟨next,hn,hnext⟩ := prefill_ok draw hm ht hh
    (fun arrival ha => (hjoins arrival ha).prompt_pos) (fun arrival ha => (hjoins arrival ha).fit)
  have hlive : (arrivals.zip (arrivals.map (fun arrival =>
      (Course.start backend.tokenizer tokensOf logitsOf arrival).state))).map
      (fun pair => (⟨pair.1,pair.2,0⟩ : Tracked))=
      arrivals.map (joinedAs backend.tokenizer tokensOf logitsOf) := by
    rw [zip_map_self,List.map_map]
    rfl
  have hcourses : (arrivals.map (joinedAs backend.tokenizer tokensOf logitsOf)).map
      (courseOf backend.tokenizer tokensOf logitsOf)=
      arrivals.map (Course.start backend.tokenizer tokensOf logitsOf) := by
    rw [List.map_map]
    rfl
  refine ⟨{s with
    runner := next
    live := s.live++arrivals.map (joinedAs backend.tokenizer tokensOf logitsOf)},?_,?_,
    _,hnext,?_,?_,?_⟩
  · rw [perform,hn]
    simp only [ok_bind,hlive]
  · intro tracked hm
    rcases List.mem_append.mp hm with hm | hd
    · rcases List.mem_append.mp hm with hl | hnew
      · exact h.joined tracked (List.mem_append_left _ hl)
      · obtain ⟨arrival,ha,rfl⟩ := List.mem_map.mp hnew
        have hj := hjoins arrival ha
        exact ⟨hj.unstarted,hj.prompt_pos,hj.fit,rfl⟩
    · exact h.joined tracked (List.mem_append_right _ hd)
  · have hids : (arrivals.map (Course.start backend.tokenizer tokensOf logitsOf)).map
        (fun course => course.state.sequenceId)=arrivals.map SequenceState.sequenceId := by
      rw [List.map_map]
      exact List.map_congr_left (fun arrival _ => (recordToken_keeps _).1)
    rw [List.map_append,hcourses,List.map_append,hids,←h.trackedIds_eq]
    refine List.nodup_append.mpr ⟨?_,hnodup,?_⟩
    · rw [h.trackedIds_eq]
      exact hc.distinct
    · intro id hid other ho he
      obtain ⟨arrival,ha,rfl⟩ := List.mem_map.mp ho
      exact (hjoins arrival ha).fresh (he ▸ hid)
  · intro course hm
    rw [List.map_append,hcourses]
    exact (List.mem_append.mp hm).elim (fun hx => List.mem_append_left _ (hc.known course hx))
      (fun hx => List.mem_append_right _ hx)
  · intro course hm ha
    rw [List.map_append,hcourses] at hm
    exact (List.mem_append.mp hm).elim
      (fun hx => List.mem_append_left _ (hc.present course hx ha))
      (fun hx => List.mem_append_right _ hx)

/-- A decode step with all sequences advances them. -/
theorem decode (hm : ReadsHistory backend.model stores logitsOf depth vocabulary)
    {draw : Draw} {order : List Tracked}
    (hr : Respects tokensOf vocabulary s (.decode draw order)) :
    ∃ t, perform backend s (.decode draw order)=.ok t ∧
      Follows backend tokensOf logitsOf stores depth vocabulary t := by
  have hperm : order.Perm s.live := hr
  obtain ⟨courses,hh,hc⟩ := h.rows
  have hstates := h.states_eq hperm
  have hcover := covers_order hperm hc
  set lives := order.map (courseOf backend.tokenizer tokensOf logitsOf) with hlives
  obtain ⟨next,hn,hnext⟩ := decodeStep_ok draw hm hh hcover (h.fit hc)
  have hlive : (order.zip (lives.map (fun course =>
      (course.advance backend.tokenizer logitsOf).state))).map
      (fun pair => (⟨pair.1.arrival,pair.2,pair.1.steps+1⟩ : Tracked))=
      order.map (steppedTo backend.tokenizer tokensOf logitsOf) := by
    rw [hlives,List.map_map,zip_map_self,List.map_map]
    rfl
  have hcourses : (order.map (steppedTo backend.tokenizer tokensOf logitsOf)).map
      (courseOf backend.tokenizer tokensOf logitsOf)=
      lives.map (Course.advance backend.tokenizer logitsOf) := by
    rw [hlives,List.map_map,List.map_map]
    rfl
  have hkept := hcover.stepRows
  refine ⟨{s with
    runner := next
    live := order.map (steppedTo backend.tokenizer tokensOf logitsOf)},?_,?_,
    _,hnext,?_,?_,?_⟩
  · rw [perform,hstates,hn]
    simp only [ok_bind,hlive]
  · intro tracked hm
    rcases List.mem_append.mp hm with hl | hd
    · obtain ⟨before,ho,rfl⟩ := List.mem_map.mp hl
      obtain ⟨hu,hp,hf,_⟩ := h.joined before (List.mem_append_left _ (hperm.mem_iff.mp ho))
      exact ⟨hu,hp,hf,rfl⟩
    · exact h.joined tracked (List.mem_append_right _ hd)
  · rw [hcourses,List.map_map]
    have hids : lives.map ((fun course => course.state.sequenceId)∘
        Course.advance backend.tokenizer logitsOf)=
        lives.map (fun course => course.state.sequenceId) :=
      List.map_congr_left (fun course _ => advance_keeps.1)
    rw [hids]
    exact hcover.distinct
  · intro course hm
    obtain ⟨before,hb,rfl⟩ := List.mem_map.mp hm
    rw [hcourses]
    exact List.mem_map_of_mem (hkept.known before hb)
  · intro course hm ha
    rw [hcourses] at hm
    obtain ⟨before,hb,rfl⟩ := List.mem_map.mp hm
    refine List.mem_map_of_mem (hkept.present before hb ?_)
    by_contra hn
    have hdone : before.state.finished=true := by
      simpa only [isActive,Bool.not_eq_true',Bool.not_eq_false] using hn
    rw [advance_finished hdone] at ha
    exact hn ha

/-- Evicting a sequence drops it. -/
theorem evict (sequence : SequenceId) :
    ∃ t, perform backend s (.evict sequence)=.ok t ∧
      Follows backend tokensOf logitsOf stores depth vocabulary t := by
  obtain ⟨courses,hh,hc⟩ := h.rows
  obtain ⟨next,hn,hnext⟩ := hh.evict_ok sequence
  have hlive : (s.live.filter (fun tracked => decide (tracked.state.sequenceId≠sequence))).map
      (courseOf backend.tokenizer tokensOf logitsOf)=
      (s.live.map (courseOf backend.tokenizer tokensOf logitsOf)).filter
        (fun course => decide (course.state.sequenceId≠sequence)) := by
    rw [List.filter_map]
    refine congrArg (List.map _) (List.filter_congr ?_)
    intro tracked hl
    rw [(h.joined tracked (List.mem_append_left _ hl)).2.2.2]
    rfl
  refine ⟨_,by rw [perform,hn,ok_bind],?_,_,hnext,?_,?_,?_⟩
  · intro tracked hm
    rcases List.mem_append.mp hm with hl | hd
    · exact h.joined tracked (List.mem_append_left _ (List.mem_of_mem_filter hl))
    · rcases List.mem_append.mp hd with hd | hl
      · exact h.joined tracked (List.mem_append_right _ hd)
      · exact h.joined tracked (List.mem_append_left _ (List.mem_of_mem_filter hl))
  · rw [hlive]
    exact hc.distinct.sublist (List.filter_sublist.map _)
  · intro course hm
    obtain ⟨hcm,hne⟩ := List.mem_filter.mp hm
    rw [hlive]
    exact List.mem_filter.mpr ⟨hc.known course hcm,hne⟩
  · intro course hm ha
    rw [hlive] at hm
    obtain ⟨hl,hne⟩ := List.mem_filter.mp hm
    exact List.mem_filter.mpr ⟨hc.present course hl ha,hne⟩

/-- Every call of the protocol goes through and keeps the session on its
courses. -/
theorem performed (hm : ReadsHistory backend.model stores logitsOf depth vocabulary)
    (ht : PadsLeft backend.tokenizer tokensOf) {action : Action}
    (hr : Respects tokensOf vocabulary s action) :
    ∃ t, perform backend s action=.ok t ∧
      Follows backend tokensOf logitsOf stores depth vocabulary t := by
  cases action with
  | prefill draw arrivals => exact h.prefill hm ht hr
  | decode draw order => exact h.decode hm hr
  | evict sequence => exact h.evict sequence

omit [Zero κ] h in
/-- With the rows of its courses a runner is aligned. -/
theorem aligned {courses : List Course} {runner : Runner κ} (hd : 0<depth)
    (hh : Holds stores depth runner courses) : Aligned runner := by
  have hlen : runner.rows.length=courses.length := by rw [hh.rows_eq,List.length_map]
  rcases hh.tensors with ⟨rfl,hc,hm,hl⟩ | ⟨_,cache,mask,last,hc,hm,hl,ht⟩
  · exact Or.inl ⟨hh.rows_eq,hc,hm,hl⟩
  · have hmask : mask.batch=runner.rows.length := by
      rw [Tensor.batch,ht.mask_rows,List.length_map,hlen]
    have hlast : last.batch=runner.rows.length := by
      rw [Tensor.batch,ht.last_rows,List.length_map,hlen]
    refine Or.inr ⟨cache,mask,last,hc,hm,hl,hmask,hlast,ht.last_width,?_,?_,?_⟩
    · intro hnil
      have hdepth := ht.stored.depth_eq
      rw [hnil] at hdepth
      exact absurd hdepth (Nat.ne_of_lt hd)
    · rw [←hmask]
      exact ht.stored.shaped
    · intro row hr
      obtain ⟨course,hcm,rfl⟩ := List.mem_map.mp (ht.mask_rows ▸ hr)
      exact ⟨_,_,Nat.sub_add_cancel (ht.fits hcm),rfl⟩

omit [Zero κ] h in
/-- A row of a course is the row of a runner that holds this course alone. -/
theorem sameRow {courses : List Course} {runner solo : Runner κ} {index : ℕ}
    (hh : Holds stores depth runner courses) (hi : index<courses.length)
    (hs : Holds stores depth solo [courses[index]]) : SameRow stores runner index solo := by
  rcases hh.tensors with ⟨hnil,_⟩ | ⟨_,cache,mask,last,hc,hm,hl,ht⟩
  · rw [hnil] at hi
    exact absurd hi (Nat.not_lt_zero _)
  · rcases hs.tensors with ⟨hnil,_⟩ | ⟨_,soloCache,soloMask,soloLast,hc',hm',hl',ht'⟩
    · exact absurd hnil (List.cons_ne_nil _ _)
    · have hzero : 0<[courses[index]].length := Nat.zero_lt_one
      refine ⟨cache,mask,last,soloCache,soloMask,soloLast,hc,hm,hl,hc',hm',hl',?_,?_,
        courses[index].history,?_,?_⟩
      · rw [ht.last_row hi,ht'.last_row hzero]
        rfl
      · rw [ht.mask_row hi,ht'.mask_row hzero,sum_leftMask,sum_leftMask]
        rfl
      · refine ht.stored.stored index _ ?_
        rw [List.getElem?_map,List.getElem?_eq_getElem hi]
        rfl
      · exact ht'.stored.stored 0 _ rfl

omit [Zero κ] in
/-- A decode step with all sequences feeds the right positions. -/
theorem fedRight {order : List Tracked} (hperm : order.Perm s.live) {prepared : Runner κ}
    {call : ModelCall κ}
    (hp : prepareStep s.runner (order.map Tracked.state)=.ok (prepared,some call)) :
    FedRight order prepared.rows call := by
  obtain ⟨courses,hh,hc⟩ := h.rows
  have hstates := h.states_eq hperm
  have hcover := covers_order hperm hc
  set lives := order.map (courseOf backend.tokenizer tokensOf logitsOf) with hlives
  rw [hstates] at hp
  by_cases hs : activeStates (lives.map Course.state)=[]
  · rw [prepareStep_idle hs] at hp
    exact absurd (congrArg Prod.snd (Except.ok.inj hp)) nofun
  · have hne : courses.filter isActive≠[] := hcover.active_ne_nil hs
    obtain ⟨kept,cache,mask,last,new,grown,hprep,hrows,_,_,_,hgr,hpr,_,_⟩ :=
      prepareStep_ok hh hs (fun course hk => hcover.wanted_iff hk) hne
    rw [hprep] at hp
    obtain ⟨rfl,hcall⟩ := Prod.mk.inj (Except.ok.inj hp)
    obtain rfl := Option.some.inj hcall
    intro index row hrow
    rw [hrows,List.getElem?_map] at hrow
    obtain ⟨course,hcourse,rfl⟩ := Option.map_eq_some_iff.mp hrow
    obtain ⟨hmc,ha⟩ := List.mem_filter.mp (List.mem_of_getElem? hcourse)
    obtain ⟨tracked,ho,rfl⟩ := List.mem_map.mp (hcover.known course hmc)
    obtain ⟨hu,_,_,hstate⟩ := h.joined tracked (List.mem_append_left _ (hperm.mem_iff.mp ho))
    have hactive : (courseOf backend.tokenizer tokensOf logitsOf tracked).state.finished=false := by
      simpa only [isActive,Bool.not_eq_true'] using ha
    have hhist : (courseOf backend.tokenizer tokensOf logitsOf tracked).history.length+1=
        (courseOf backend.tokenizer tokensOf logitsOf tracked).state.promptTokens+
          (courseOf backend.tokenizer tokensOf logitsOf tracked).state.generated :=
      after_history hu tracked.steps (Bool.or_eq_false_iff.mp hactive).1
    have hmask : grown.row index=leftMask
        (mask.width-(courseOf backend.tokenizer tokensOf logitsOf tracked).history.length)
        ((courseOf backend.tokenizer tokensOf logitsOf tracked).history.length+1) := by
      rw [Tensor.row,hgr,List.getElem?_map,hcourse]
      rfl
    have hposition : ((positions grown).lastColumns 1).row index=
        [(courseOf backend.tokenizer tokensOf logitsOf tracked).history.length] := by
      rw [Tensor.row,hpr,List.getElem?_map,hcourse]
      rfl
    refine ⟨tracked,ho,by rw [hstate],hstate ▸ hactive,?_,?_⟩
    · rw [stepCall,hmask,sum_leftMask,hstate]
      exact hhist
    · rw [stepCall,hposition,hmask,sum_leftMask,Nat.add_sub_cancel]

/-- Alone a sequence of the session is as it is, and has its course's row. -/
theorem alone_holds (hm : ReadsHistory backend.model stores logitsOf depth vocabulary)
    (ht : PadsLeft backend.tokenizer tokensOf) {tracked : Tracked}
    (hmem : tracked∈s.live++s.departed) (draws : ℕ → Draw) : ∃ solo,
      alone backend draws tracked.arrival tracked.steps=.ok (solo,[tracked.state]) ∧
      Holds stores depth solo [courseOf backend.tokenizer tokensOf logitsOf tracked] := by
  obtain ⟨_,hp,hf,hstate⟩ := h.joined tracked hmem
  rw [hstate]
  exact alone_ok hm ht hp hf draws tracked.steps

omit [Zero κ] h in
/-- The last tokens of a runner that holds a row for a course. -/
theorem last_held {courses : List Course} {runner : Runner κ} {index : ℕ}
    (hh : Holds stores depth runner courses) (hi : index<courses.length) :
    ∃ last, runner.last=some last ∧ last.row index=[courses[index].last] := by
  rcases hh.tensors with ⟨hnil,_⟩ | ⟨_,_,_,last,_,_,hl,ht⟩
  · rw [hnil] at hi
    exact absurd hi (Nat.not_lt_zero _)
  · exact ⟨last,hl,ht.last_row hi⟩

omit [Zero κ] h in
/-- A course advances by recording the token picked last. -/
theorem recorded_last (tokenizer : Tokenizer) (course : Course) :
    recorded tokenizer course.state (course.advance tokenizer logitsOf).last=
      (course.advance tokenizer logitsOf).state := by
  rw [recorded]
  cases hf : course.state.finished with
  | true => rw [if_pos rfl,advance_finished hf]
  | false =>
    rw [if_neg Bool.false_ne_true,advance_active hf]
    rfl

/-- A decode step with all sequences, in any order, feeds and records one token
for each that is not finished. -/
theorem decodes (hm : ReadsHistory backend.model stores logitsOf depth vocabulary)
    (ht : PadsLeft backend.tokenizer tokensOf) (draw : Draw) {order : List Tracked}
    (hperm : order.Perm s.live) : Decodes backend draw s order := by
  obtain ⟨courses,hh,hc⟩ := h.rows
  have hstates := h.states_eq hperm
  have hcover := covers_order hperm hc
  have hjoined : ∀ tracked∈order, tracked∈s.live++s.departed := fun tracked ho =>
    List.mem_append_left _ (hperm.mem_iff.mp ho)
  have hstate : ∀ tracked∈order, tracked.state=
      (courseOf backend.tokenizer tokensOf logitsOf tracked).state := fun tracked ho =>
    (h.joined tracked (hjoined tracked ho)).2.2.2
  have hfinished : ∀ tracked∈order, tracked.state.finished=
      !isActive (courseOf backend.tokenizer tokensOf logitsOf tracked) := by
    intro tracked ho
    rw [hstate tracked ho,isActive,Bool.not_not]
  set lives := order.map (courseOf backend.tokenizer tokensOf logitsOf) with hlives
  obtain ⟨next,hn,hnext⟩ := decodeStep_ok draw hm hh hcover (h.fit hc)
  have hrecorded : lives.map (fun course => (course.advance backend.tokenizer logitsOf).state)=
      order.map (fun tracked => recorded backend.tokenizer tracked.state
        ((courseOf backend.tokenizer tokensOf logitsOf tracked).advance
          backend.tokenizer logitsOf).last) := by
    rw [hlives,List.map_map]
    refine List.map_congr_left ?_
    intro tracked ho
    rw [hstate tracked ho]
    exact (recorded_last _ _).symm
  have hdecode := hn
  rw [←hstates,hrecorded] at hdecode
  refine ⟨next,_,hdecode,?_,?_⟩
  · intro hall
    have hidle : activeStates (order.map Tracked.state)=[] := by
      refine List.filter_eq_nil_iff.mpr ?_
      intro state hs
      obtain ⟨tracked,ho,rfl⟩ := List.mem_map.mp hs
      rw [hall tracked ho]
      exact Bool.false_ne_true
    rw [decodeStep,prepareStep_idle hidle] at hdecode
    exact (Prod.mk.inj (Except.ok.inj hdecode)).1.symm
  · rintro ⟨waiting,hw,hwf⟩
    have hlive : lives.filter isActive≠[] := by
      rw [hfinished waiting hw,Bool.not_eq_false'] at hwf
      exact List.ne_nil_of_mem (List.mem_filter.mpr ⟨List.mem_map_of_mem hw,hwf⟩)
    have hs : activeStates (lives.map Course.state)≠[] := by
      rw [activeStates_map]
      exact fun hnil => hlive (List.map_eq_nil_iff.mp hnil)
    obtain ⟨kept,cache,mask,last,new,grown,hprep,hrows,htab,_⟩ :=
      prepareStep_ok hh hs (fun course hk => hcover.wanted_iff hk) (hcover.active_ne_nil hs)
    rw [←hstates] at hprep
    obtain ⟨hnr,hcache,honly⟩ := decodeStep_called hprep hdecode
    have hfed := h.fedRight hperm hprep
    rw [stepRows,if_neg hlive] at hnext
    refine ⟨stepCall last grown cache,honly,hcache,hnr ▸ hfed,?_,?_⟩
    · intro tracked ho hf
      rw [hfinished tracked ho,Bool.not_eq_false'] at hf
      have hk := hcover.present _ (List.mem_map_of_mem ho) hf
      have hid := List.mem_map_of_mem (f := fun course : Course => course.state.sequenceId)
        (List.mem_filter.mpr ⟨hk,hf⟩)
      rw [hnr]
      change tracked.state.sequenceId∈kept.rows
      rw [hrows,hstate tracked ho]
      exact hid
    · intro index row hrow tracked ho hid
      rw [hnr] at hrow
      change row∈kept.rows[index]? at hrow
      rw [hrows,List.getElem?_map] at hrow
      obtain ⟨course,hcourse,rfl⟩ := Option.map_eq_some_iff.mp hrow
      obtain ⟨hi,rfl⟩ := List.getElem?_eq_some_iff.mp hcourse
      have hmem := hcover.known _ (List.mem_filter.mp (List.getElem_mem hi)).1
      rw [hstate tracked ho] at hid
      have hsame : courseOf backend.tokenizer tokensOf logitsOf tracked=
          (courses.filter isActive)[index] :=
        hcover.eq_of_id (List.mem_map_of_mem ho) hmem hid
      refine ⟨?_,?_⟩
      · intro draws
        obtain ⟨solo,ha,hsolo⟩ := h.alone_holds hm ht (hjoined tracked ho) draws
        obtain ⟨soloLast,hl,hr⟩ := last_held hsolo Nat.zero_lt_one
        refine ⟨solo,soloLast,ha,hl,?_⟩
        rw [hr]
        exact (htab.last_row hi).trans (congrArg (fun course => [course.last]) hsame.symm)
      · have hi' : index<((courses.filter isActive).map
            (Course.advance backend.tokenizer logitsOf)).length := by
          rwa [List.length_map]
        obtain ⟨nextLast,hl,hr⟩ := last_held hnext hi'
        refine ⟨nextLast,hl,hr.trans ?_⟩
        rw [List.getElem_map,hsame]

/-- A session that follows its courses is batch invariant. -/
theorem batchInvariant (hm : ReadsHistory backend.model stores logitsOf depth vocabulary)
    (ht : PadsLeft backend.tokenizer tokensOf) : BatchInvariant backend stores s := by
  obtain ⟨courses,hh,hc⟩ := h.rows
  refine ⟨aligned hm.depth_pos hh,?_,?_,?_,fun order hperm prepared call hp => h.fedRight hperm hp,
    fun draw order hperm => h.decodes hm ht draw hperm⟩
  · intro tracked hmem draws
    obtain ⟨solo,ha,_⟩ := h.alone_holds hm ht hmem draws
    exact ⟨solo,ha⟩
  · intro tracked hmem
    obtain ⟨hu,_,_,hstate⟩ := h.joined tracked hmem
    rw [hstate,courseOf,(after_keeps tracked.steps).2]
    exact after_within hu tracked.steps
  · intro index row hrow
    rw [hh.rows_eq,List.getElem?_map] at hrow
    obtain ⟨course,hcourse,rfl⟩ := Option.map_eq_some_iff.mp hrow
    obtain ⟨hi,rfl⟩ := List.getElem?_eq_some_iff.mp hcourse
    obtain ⟨tracked,hl,he⟩ := List.mem_map.mp (hc.known _ (List.getElem_mem hi))
    have hmem := List.mem_append_left s.departed hl
    refine ⟨tracked,hl,?_,?_⟩
    · rw [(h.joined tracked hmem).2.2.2,he]
    · intro draws
      obtain ⟨solo,ha,hs⟩ := h.alone_holds hm ht hmem draws
      exact ⟨solo,ha,sameRow hh hi (he ▸ hs)⟩

end Follows

/-- A reached session follows its courses. -/
theorem reached_follows (hm : ReadsHistory backend.model stores logitsOf depth vocabulary)
    (ht : PadsLeft backend.tokenizer tokensOf)
    (h : (sessions backend tokensOf vocabulary).Reaches s) :
    Follows backend tokensOf logitsOf stores depth vocabulary s := by
  induction h with
  | start hs => exact hs ▸ follows_fresh
  | @step u v action _ hstep hu =>
    obtain ⟨hr,hp⟩ := hstep
    obtain ⟨t,ht',hf⟩ := hu.performed hm ht hr
    rw [hp] at ht'
    exact Except.ok.inj ht' ▸ hf

/-- A call whose result is kept has gone through. -/
theorem performed_of_toOption {t : Session κ} {action : Action}
    (h : (perform backend s action).toOption=some t) : perform backend s action=.ok t := by
  cases hp : perform backend s action with
  | ok u =>
    rw [hp] at h
    exact congrArg Except.ok (Option.some.inj h)
  | error e =>
    rw [hp] at h
    exact absurd h.symm (Option.some_ne_none _)

/-- The runner over the model of one layer. -/
def layerBackend : Backend ℕ where
  model := layerModel
  tokenizer := characterTokenizer
  softmax := List.map (fun _ => 1)

/-- A new greedy sequence. -/
def arrivalOf (sequence : SequenceId) (prompt : String) (budget : ℕ) (hb : 0<budget) :
    SequenceState where
  sequenceId := sequence
  prompt := prompt
  generation := ⟨budget,0,1,0,none,hb,greedy_temperature,default_mass,default_mass_le⟩

theorem three_tokens : 0 < 3 := by decide

/-- Two sequences join, then a longer one; the second is evicted, and the
others take a step. -/
def mixedRun : List Action :=
  let first := arrivalOf 1 "b" 3 three_tokens
  let longer := arrivalOf 3 "abab" 2 Nat.two_pos
  [.prefill (fun _ _ => 0) [first,arrivalOf 2 "ab" 2 Nat.two_pos],
    .prefill (fun _ _ => 1) [longer],
    .evict 2,
    .decode (fun _ _ => 2) [⟨longer,{longer with tokens := ["b"], promptTokens := 4},0⟩,
      ⟨first,{first with tokens := ["c"], promptTokens := 1},0⟩]]

end CudaForge.BatchInvariance
