import CudaForge.RunnerTables

/-!
# The course of a sequence in the runner

On its own a sequence goes from its prompt's history to longer ones, the most
likely token added each time, until it is finished. Whatever shares the batch
with it, the runner holds for each row what its course says: prefill starts
courses, a decode step advances those that are not finished and drops the
others, evicting drops one.
-/

namespace CudaForge.SequenceCourses

open CacheBlocks PythonBuiltins GenerationSettings ServingTypes BatchTensors TokenSampling
open StepwiseRunner RunnerTables

/-- Where a sequence stands. -/
structure Course where
  /-- What the cache stores of it. -/
  history : History
  /-- The token picked last. -/
  last : ℕ
  /-- The sequence as the scheduler sees it. -/
  state : SequenceState

/-- The tokens of a prompt, at positions from zero on. -/
def promptHistory (tokens : List ℕ) : History := tokens.zip (List.range tokens.length)

theorem length_promptHistory (tokens : List ℕ) : (promptHistory tokens).length=tokens.length := by
  rw [promptHistory,List.length_zip,List.length_range,Nat.min_self]

section Courses

variable (tokenizer : Tokenizer) (tokensOf : String → List ℕ) (logitsOf : History → List ℚ)

/-- The most likely token after a history, recorded. -/
def Course.pick (history : History) (state : SequenceState) : Course where
  history := history
  last := bestToken (logitsOf history)
  state := recordToken tokenizer state (bestToken (logitsOf history))

/-- A sequence after its prefill. -/
def Course.start (arrival : SequenceState) : Course :=
  Course.pick tokenizer logitsOf (promptHistory (tokensOf arrival.prompt))
    {arrival with promptTokens := (tokensOf arrival.prompt).length}

/-- A sequence after a decode step. -/
def Course.advance (course : Course) : Course :=
  if course.state.finished then course
  else Course.pick tokenizer logitsOf
    (course.history++[(course.last,course.history.length)]) course.state

/-- A sequence after its prefill and so many decode steps. -/
def Course.after (arrival : SequenceState) : ℕ → Course
  | 0 => Course.start tokenizer tokensOf logitsOf arrival
  | steps+1 => Course.advance tokenizer logitsOf (Course.after arrival steps)

end Courses

variable {κ : Type} {stores : Stores κ} {depth vocabulary : ℕ} {backend : Backend κ} {draw : Draw}
variable {tokenizer : Tokenizer} {tokensOf : String → List ℕ} {logitsOf : History → List ℚ}
variable {runner : Runner κ} {courses lives : List Course} {course : Course}
variable {arrival state : SequenceState} {arrivals : List SequenceState}
variable {cache : Cache κ} {mask last : Tensor ℕ}

/-- Recording a token leaves the sequence's id and settings. -/
theorem recordToken_keeps (token : ℕ) :
    (recordToken tokenizer state token).sequenceId=state.sequenceId ∧
      (recordToken tokenizer state token).generation=state.generation ∧
      (recordToken tokenizer state token).promptTokens=state.promptTokens := by
  rw [recordToken]
  split <;> exact ⟨rfl,rfl,rfl⟩

/-- A step leaves the sequence's id and settings. -/
theorem advance_keeps :
    (course.advance tokenizer logitsOf).state.sequenceId=course.state.sequenceId ∧
      (course.advance tokenizer logitsOf).state.generation=course.state.generation ∧
      (course.advance tokenizer logitsOf).state.promptTokens=course.state.promptTokens := by
  rw [Course.advance]
  split
  · exact ⟨rfl,rfl,rfl⟩
  · exact recordToken_keeps _

/-- A finished sequence stays as it is. -/
theorem advance_finished (h : course.state.finished=true) :
    course.advance tokenizer logitsOf=course := if_pos h

/-- A sequence that is not finished gets its next token. -/
theorem advance_active (h : course.state.finished=false) :
    course.advance tokenizer logitsOf=Course.pick tokenizer logitsOf
      (course.history++[(course.last,course.history.length)]) course.state := by
  rw [Course.advance,if_neg (by rw [h]; exact Bool.false_ne_true)]

/-- Recording a token adds one, or the sequence has stopped. -/
theorem recordToken_generated (token : ℕ) :
    (recordToken tokenizer state token).generated ≤ state.generated+1 ∧
      ((recordToken tokenizer state token).stoppedEarly=false →
        (recordToken tokenizer state token).generated=state.generated+1) := by
  rw [recordToken]
  split
  · exact ⟨Nat.le_succ _,fun h => absurd h.symm Bool.false_ne_true⟩
  · have hlen : (state.tokens++[tokenizer.decode [token]]).length=state.generated+1 :=
      List.length_append
    exact ⟨hlen.le,fun _ => hlen⟩

/-- A sequence that is new: nothing generated yet. -/
structure Unstarted (arrival : SequenceState) : Prop where
  no_tokens : arrival.tokens=[]
  not_stopped : arrival.stoppedEarly=false

/-- The course of a sequence keeps its id and its settings. -/
theorem after_keeps (steps : ℕ) :
    (Course.after tokenizer tokensOf logitsOf arrival steps).state.sequenceId=
        arrival.sequenceId ∧
      (Course.after tokenizer tokensOf logitsOf arrival steps).state.generation=
        arrival.generation := by
  induction steps with
  | zero => exact ⟨(recordToken_keeps _).1,(recordToken_keeps _).2.1⟩
  | succ steps ih =>
    rw [Course.after]
    exact ⟨advance_keeps.1.trans ih.1,advance_keeps.2.1.trans ih.2⟩

/-- Along its course a sequence stays within its budget. -/
theorem after_within (h : Unstarted arrival) (steps : ℕ) :
    (Course.after tokenizer tokensOf logitsOf arrival steps).state.generated≤
      arrival.generation.maxNewTokens := by
  induction steps with
  | zero =>
    have hpos := arrival.generation.maxNewTokens_pos
    have hone : (Course.start tokenizer tokensOf logitsOf arrival).state.generated≤
        arrival.generated+1 := (recordToken_generated _).1
    have hzero : arrival.tokens.length=0 := by rw [h.no_tokens,List.length_nil]
    have hgen : arrival.generated=0 := hzero
    rw [hgen] at hone
    exact hone.trans hpos
  | succ steps ih =>
    rw [Course.after]
    cases hf : (Course.after tokenizer tokensOf logitsOf arrival steps).state.finished with
    | true => rwa [advance_finished hf]
    | false =>
      have hlt := (Bool.or_eq_false_iff.mp hf).2
      rw [(after_keeps steps).2] at hlt
      rw [advance_active hf]
      exact (recordToken_generated _).1.trans (Nat.lt_of_not_le (of_decide_eq_false hlt))

/-- As long as it has not stopped, all of its tokens but the last are in its
history, behind the prompt's. -/
theorem after_history (h : Unstarted arrival) (steps : ℕ) :
    (Course.after tokenizer tokensOf logitsOf arrival steps).state.stoppedEarly=false →
      (Course.after tokenizer tokensOf logitsOf arrival steps).history.length+1=
        (Course.after tokenizer tokensOf logitsOf arrival steps).state.promptTokens+
          (Course.after tokenizer tokensOf logitsOf arrival steps).state.generated := by
  induction steps with
  | zero =>
    intro hs
    have hone := (recordToken_generated _).2 hs
    have hzero : arrival.tokens.length=0 := by rw [h.no_tokens,List.length_nil]
    simp only [SequenceState.generated,hzero] at hone
    rw [Course.after,Course.start,Course.pick]
    simp only [SequenceState.generated,hone,(recordToken_keeps _).2.2,length_promptHistory]
  | succ steps ih =>
    rw [Course.after]
    intro hs
    cases hf : (Course.after tokenizer tokensOf logitsOf arrival steps).state.finished with
    | true =>
      rw [advance_finished hf] at hs ⊢
      exact ih hs
    | false =>
      have hn := ih (Bool.or_eq_false_iff.mp hf).1
      rw [advance_active hf] at hs ⊢
      have hone := (recordToken_generated _).2 hs
      simp only [Course.pick,List.length_append,List.length_singleton,(recordToken_keeps _).2.2,
        hone]
      omega

/-- The tensors of rows in these courses. -/
structure Tabled (stores : Stores κ) (depth : ℕ) (courses : List Course) (cache : Cache κ)
    (mask last : Tensor ℕ) : Prop where
  mask_rows : mask.rows=courses.map
    (fun course => leftMask (mask.width-course.history.length) course.history.length)
  last_rows : last.rows=courses.map (fun course => [course.last])
  last_width : last.width=1
  stored : Stored stores depth cache mask (courses.map Course.history)

/-- The runner holds a row for each of these courses, in this order. -/
structure Holds (stores : Stores κ) (depth : ℕ) (runner : Runner κ) (courses : List Course) :
    Prop where
  rows_eq : runner.rows=courses.map (fun course => course.state.sequenceId)
  history_pos : ∀ course∈courses, 0<course.history.length
  tensors : courses=[] ∧ runner.cache=none ∧ runner.mask=none ∧ runner.last=none ∨
    courses≠[] ∧ ∃ cache mask last, runner.cache=some cache ∧ runner.mask=some mask ∧
      runner.last=some last ∧ Tabled stores depth courses cache mask last

/-- A new runner holds no row. -/
theorem holds_fresh : Holds stores depth ({} : Runner κ) [] where
  rows_eq := rfl
  history_pos := nofun
  tensors := Or.inl ⟨rfl,rfl,rfl,rfl⟩

namespace Tabled

variable (h : Tabled stores depth courses cache mask last)
include h

/-- No history is longer than the mask. -/
theorem fits (hc : course∈courses) : course.history.length ≤ mask.width := by
  have hrow : leftMask (mask.width-course.history.length) course.history.length∈mask.rows :=
    h.mask_rows ▸ List.mem_map_of_mem hc
  have hlen := mask.uniform _ hrow
  rw [length_leftMask] at hlen
  omega

/-- The mask row of a course. -/
theorem mask_row {index : ℕ} (hi : index<courses.length) : mask.row index=
    leftMask (mask.width-courses[index].history.length) courses[index].history.length := by
  rw [Tensor.row,h.mask_rows,List.getElem?_map,List.getElem?_eq_getElem hi]
  rfl

/-- The last token of a course. -/
theorem last_row {index : ℕ} (hi : index<courses.length) :
    last.row index=[courses[index].last] := by
  rw [Tensor.row,h.last_rows,List.getElem?_map,List.getElem?_eq_getElem hi]
  rfl

end Tabled

namespace Holds

/-- Keeping the rows whose ids satisfy a predicate keeps their courses. -/
theorem keepRows_ok (h : Holds stores depth runner courses) (p : SequenceId → Bool) :
    ∃ kept, keepRows runner (positionsOf p runner.rows)=.ok kept ∧
      Holds stores depth kept (courses.filter (fun course => p course.state.sequenceId)) := by
  set q := fun course : Course => p course.state.sequenceId with hq
  have hpos : positionsOf p runner.rows=positionsOf q courses := by
    rw [h.rows_eq,positionsOf_map]
  have hlen := length_positionsOf q courses
  rw [hpos,keepRows]
  by_cases hnil : positionsOf q courses=[]
  · rw [if_pos hnil]
    rw [hnil] at hlen
    rw [List.length_eq_zero_iff.mp hlen.symm]
    exact ⟨_,rfl,rfl,nofun,Or.inl ⟨rfl,rfl,rfl,rfl⟩⟩
  · rw [if_neg hnil]
    have hin : ∀ index∈positionsOf q courses, index<courses.length :=
      fun index hi => lt_of_mem_positionsOf hi
    rcases h.tensors with ⟨rfl,_⟩ | ⟨_,cache,mask,last,hc,hm,hl,ht⟩
    · exact absurd rfl hnil
    · have hkh : ∀ index∈positionsOf q courses, index<(courses.map Course.history).length :=
        fun index hi => (List.length_map Course.history).symm ▸ hin index hi
      have hkl : ∀ index∈positionsOf q courses, index<last.batch := by
        intro index hi
        rw [Tensor.batch,ht.last_rows,List.length_map]
        exact hin index hi
      obtain ⟨layers,newMask,hlayers,hmask,hmr,hmw,hstored⟩ := ht.stored.select hkh
      obtain ⟨newLast,hlast,hlr,hlw⟩ := Tensor.select_eq hkl
      have hselect : indexSelect last (positionsOf q courses)=.ok newLast := by
        rw [indexSelect,hlast]
        rfl
      have hrows : (positionsOf q courses).mapM (subscript runner.rows)=
          .ok ((positionsOf q courses).map (fun position => runner.rows[position]?.getD 0)) := by
        refine mapM_ok ?_
        intro position hp
        have hlt : position<runner.rows.length := by
          rw [h.rows_eq,List.length_map]
          exact hin position hp
        rw [subscript,List.getElem?_eq_getElem hlt]
        rfl
      refine ⟨{runner with
        cache := some {layers := layers}
        mask := some newMask
        last := some newLast
        rows := (positionsOf q courses).map (fun position => runner.rows[position]?.getD 0)},
        ?_,?_,?_,?_⟩
      · rw [hc,hm,hl]
        simp only [asserted,ok_bind,hlayers,hmask,hselect,hrows]
      · refine map_positionsOf q courses _ _ ?_
        intro index hi
        rw [h.rows_eq,List.getElem?_map,List.getElem?_eq_getElem hi]
        rfl
      · exact fun course hm => h.history_pos course (List.mem_of_mem_filter hm)
      · refine Or.inr ⟨?_,_,_,_,rfl,rfl,rfl,?_,?_,?_,?_⟩
        · intro hfilter
          rw [hfilter] at hlen
          exact hnil (List.length_eq_zero_iff.mp hlen)
        · rw [hmr,hmw]
          exact map_positionsOf q courses _ _ (fun index hi => ht.mask_row hi)
        · rw [hlr]
          exact map_positionsOf q courses _ _ (fun index hi => ht.last_row hi)
        · exact hlw.trans ht.last_width
        · have hhist : (positionsOf q courses).map
              (fun index => (courses.map Course.history)[index]?.getD [])=
              (courses.filter q).map Course.history := by
            refine map_positionsOf q courses _ _ ?_
            intro index hi
            rw [List.getElem?_map,List.getElem?_eq_getElem hi]
            rfl
          exact hhist ▸ hstored

/-- Evicting a sequence drops its row and no other. -/
theorem evict_ok (h : Holds stores depth runner courses) (sequence : SequenceId) :
    ∃ left, evict runner sequence=.ok left ∧ Holds stores depth left
      (courses.filter (fun course => decide (course.state.sequenceId≠sequence))) := by
  rw [evict]
  by_cases hm : sequence∈runner.rows
  · rw [if_pos hm]
    exact h.keepRows_ok (fun row => decide (row≠sequence))
  · have hall : courses.filter
        (fun course => decide (course.state.sequenceId≠sequence))=courses := by
      refine List.filter_eq_self.mpr ?_
      intro course hc
      refine decide_eq_true ?_
      intro he
      exact hm (h.rows_eq ▸ he ▸ List.mem_map_of_mem hc)
    rw [if_neg hm,hall]
    exact ⟨runner,rfl,h⟩

end Holds

end CudaForge.SequenceCourses
