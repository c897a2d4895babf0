import CudaForge.ServingTypes

/-!
# The echo runner

`EchoStepwiseRunner`: a step appends a token made from the prompt, or sets
the end marker once as many tokens are there as `stop_after` says. Prefill
and evict write nothing to the sequences. A sequence is described by the
number of steps it has taken. What the runner counts and how long it sleeps
are not modelled.
-/

namespace CudaForge.EchoRunner

open CacheBlocks GenerationSettings ServingTypes

/-- After how many tokens a prompt's sequence stops early. -/
abbrev StopAfter := String → Option ℤ

/-- The token of a prompt at an index: its first two characters and the
index. -/
def echoToken (prompt : String) (index : ℕ) : String :=
  String.ofList (prompt.toList.take 2)++toString index

/-- One more token. -/
def appendToken (state : SequenceState) : SequenceState :=
  {state with tokens := state.tokens++[echoToken state.prompt state.generated]}

/-- An active sequence takes a step. -/
def advance (stopAfter : StopAfter) (state : SequenceState) : SequenceState :=
  match stopAfter state.prompt with
  | some limit =>
    if limit ≤ state.generated then {state with stoppedEarly := true} else appendToken state
  | none => appendToken state

/-- A sequence in `decode_step`: finished ones are left alone. -/
def decodeOne (stopAfter : StopAfter) (state : SequenceState) : SequenceState :=
  if state.finished then state else advance stopAfter state

/-- `decode_step`. -/
def decodeStep (stopAfter : StopAfter) (states : List SequenceState) : List SequenceState :=
  states.map (decodeOne stopAfter)

/-- How many tokens a sequence gets. -/
def tokenCount (stopAfter : StopAfter) (prompt : String) (generation : GenerationConfig) : ℕ :=
  match stopAfter prompt with
  | some limit => min generation.maxNewTokens limit.toNat
  | none => generation.maxNewTokens

/-- It stops before its budget is used up. -/
def stopsEarly (stopAfter : StopAfter) (prompt : String) (generation : GenerationConfig) : Bool :=
  match stopAfter prompt with
  | some limit => decide (limit.toNat<generation.maxNewTokens)
  | none => false

/-- How many steps a sequence takes. -/
def lengthOf (stopAfter : StopAfter) (prompt : String) (generation : GenerationConfig) : ℕ :=
  tokenCount stopAfter prompt generation+(stopsEarly stopAfter prompt generation).toNat

/-- A sequence after so many steps. -/
def stateAfter (stopAfter : StopAfter) (sequence : SequenceId) (prompt : String)
    (generation : GenerationConfig) (taken : ℕ) : SequenceState where
  sequenceId := sequence
  prompt := prompt
  generation := generation
  tokens := (List.range (min taken (tokenCount stopAfter prompt generation))).map (echoToken prompt)
  stoppedEarly := stopsEarly stopAfter prompt generation &&
    decide (lengthOf stopAfter prompt generation≤taken)

variable {stopAfter : StopAfter} {sequence : SequenceId} {prompt : String}
variable {generation : GenerationConfig} {taken : ℕ}

/-- A sequence that does not stop early uses up its budget; one that does
stops where it was told to. -/
theorem tokenCount_cases (stopAfter : StopAfter) (prompt : String)
    (generation : GenerationConfig) :
    stopsEarly stopAfter prompt generation=false ∧
        tokenCount stopAfter prompt generation=generation.maxNewTokens ∧
        (∀ limit, stopAfter prompt=some limit → generation.maxNewTokens≤limit.toNat) ∨
    ∃ limit, stopAfter prompt=some limit ∧ stopsEarly stopAfter prompt generation=true ∧
        tokenCount stopAfter prompt generation=limit.toNat ∧
        limit.toNat<generation.maxNewTokens := by
  rw [stopsEarly,tokenCount]
  cases stopAfter prompt with
  | none => exact Or.inl ⟨rfl,rfl,nofun⟩
  | some limit =>
    by_cases hl : limit.toNat<generation.maxNewTokens
    · exact Or.inr ⟨limit,rfl,decide_eq_true hl,Nat.min_eq_right hl.le,hl⟩
    · refine Or.inl ⟨decide_eq_false hl,Nat.min_eq_left (Nat.le_of_not_lt hl),?_⟩
      intro other ho
      rw [←Option.some.inj ho]
      exact Nat.le_of_not_lt hl

/-- A sequence takes at least one step. -/
theorem lengthOf_pos (stopAfter : StopAfter) (prompt : String) (generation : GenerationConfig) :
    0<lengthOf stopAfter prompt generation := by
  rw [lengthOf]
  rcases tokenCount_cases stopAfter prompt generation with ⟨hs,ht,_⟩ | ⟨limit,_,hs,_,_⟩
  · have hp := generation.maxNewTokens_pos
    rw [hs,ht]
    omega
  · rw [hs]
    exact Nat.succ_pos _

/-- A new sequence has taken no step. -/
theorem stateAfter_zero : stateAfter stopAfter sequence prompt generation 0=
    {sequenceId := sequence, prompt := prompt, generation := generation} := by
  have hp := lengthOf_pos stopAfter prompt generation
  rw [stateAfter,Nat.zero_min,decide_eq_false (Nat.not_le.mpr hp),Bool.and_false]
  rfl

/-- A sequence has finished when it has taken its steps. -/
theorem stateAfter_finished : (stateAfter stopAfter sequence prompt generation taken).finished=
    decide (lengthOf stopAfter prompt generation≤taken) := by
  rw [SequenceState.finished,SequenceState.generated,stateAfter,lengthOf]
  simp only [List.length_map,List.length_range]
  rcases tokenCount_cases stopAfter prompt generation with ⟨hs,ht,_⟩ | ⟨limit,_,hs,ht,hl⟩
  · rw [hs,ht,Bool.false_and,Bool.false_or]
    refine decide_eq_decide.mpr ?_
    simp only [Bool.toNat_false]
    omega
  · have hbudget : ¬generation.maxNewTokens ≤ min taken limit.toNat := by omega
    rw [hs,ht,Bool.true_and,decide_eq_false hbudget,Bool.or_false]

/-- A step of the runner is one more step taken. -/
theorem decodeOne_stateAfter :
    decodeOne stopAfter (stateAfter stopAfter sequence prompt generation taken)=
      stateAfter stopAfter sequence prompt generation (taken+1) := by
  rw [decodeOne,stateAfter_finished]
  by_cases hdone : lengthOf stopAfter prompt generation≤taken
  · have hle : tokenCount stopAfter prompt generation≤taken :=
      (Nat.le_add_right _ _).trans hdone
    rw [if_pos (decide_eq_true hdone),stateAfter,stateAfter,Nat.min_eq_right hle,
      Nat.min_eq_right (hle.trans (Nat.le_succ taken)),decide_eq_true hdone,
      decide_eq_true (hdone.trans (Nat.le_succ taken))]
  · have happend : taken<tokenCount stopAfter prompt generation →
        appendToken (stateAfter stopAfter sequence prompt generation taken)=
          stateAfter stopAfter sequence prompt generation (taken+1) := by
      intro hlt
      have hnext : stopsEarly stopAfter prompt generation=false ∨
          ¬lengthOf stopAfter prompt generation≤taken+1 := by
        rw [lengthOf]
        cases stopsEarly stopAfter prompt generation with
        | false => exact Or.inl rfl
        | true =>
          refine Or.inr ?_
          simp only [Bool.toNat_true]
          omega
      have hflag : (stopsEarly stopAfter prompt generation &&
          decide (lengthOf stopAfter prompt generation≤taken+1))=
          (stopsEarly stopAfter prompt generation &&
            decide (lengthOf stopAfter prompt generation≤taken)) := by
        rcases hnext with hs | hn
        · rw [hs,Bool.false_and,Bool.false_and]
        · rw [decide_eq_false hn,decide_eq_false hdone]
      have hmin : min (taken+1) (tokenCount stopAfter prompt generation)=taken+1 := by omega
      have hold : min taken (tokenCount stopAfter prompt generation)=taken := by omega
      rw [appendToken,stateAfter,stateAfter,hflag,hmin,hold,List.range_succ,List.map_append]
      simp only [SequenceState.generated,List.length_map,List.length_range,List.map_cons,
        List.map_nil]
    have hgen : (stateAfter stopAfter sequence prompt generation taken).generated=
        min taken (tokenCount stopAfter prompt generation) := by
      rw [SequenceState.generated,stateAfter]
      simp only [List.length_map,List.length_range]
    have hprompt : (stateAfter stopAfter sequence prompt generation taken).prompt=prompt := rfl
    have hlength := hdone
    rw [lengthOf] at hlength
    rw [if_neg (fun hd => hdone (of_decide_eq_true hd)),advance,hprompt]
    rcases tokenCount_cases stopAfter prompt generation with ⟨hs,ht,hlimit⟩ | ⟨limit,hx,hs,ht,_⟩
    · rw [hs,ht] at hlength
      have hlt : taken<generation.maxNewTokens := Nat.lt_of_not_le hlength
      cases hx : stopAfter prompt with
      | none => exact happend (ht ▸ hlt)
      | some limit =>
        have hle := hlimit limit hx
        have hgo : ¬limit≤(stateAfter stopAfter sequence prompt generation taken).generated := by
          rw [hgen]
          omega
        simp only [if_neg hgo]
        exact happend (ht ▸ hlt)
    · rw [hs,ht] at hlength
      simp only [Bool.toNat_true] at hlength
      simp only [hx]
      by_cases hlast : taken=limit.toNat
      · -- the step that sets the end marker
        have hstop : limit≤(stateAfter stopAfter sequence prompt generation taken).generated := by
          rw [hgen,ht]
          omega
        have hdone' : lengthOf stopAfter prompt generation≤taken+1 := by
          rw [lengthOf,hs,ht,hlast]
          exact Nat.le_refl _
        rw [if_pos hstop,stateAfter,stateAfter,hs,decide_eq_true hdone',ht,hlast]
        have hmin : min (limit.toNat+1) limit.toNat=min limit.toNat limit.toNat := by omega
        rw [hmin]
        rfl
      · have hgo : ¬limit≤(stateAfter stopAfter sequence prompt generation taken).generated := by
          rw [hgen,ht]
          omega
        rw [if_neg hgo]
        exact happend (by omega)

/-- Behind its end a sequence changes no more. -/
theorem stateAfter_stable (h : lengthOf stopAfter prompt generation≤taken) :
    stateAfter stopAfter sequence prompt generation taken=
      stateAfter stopAfter sequence prompt generation (lengthOf stopAfter prompt generation) := by
  have hle : tokenCount stopAfter prompt generation≤lengthOf stopAfter prompt generation :=
    Nat.le_add_right _ _
  rw [stateAfter,stateAfter,Nat.min_eq_right (hle.trans h),Nat.min_eq_right hle,decide_eq_true h,
    decide_eq_true (Nat.le_refl _)]

end CudaForge.EchoRunner
