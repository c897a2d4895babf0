import CudaForge.SequenceCourses

/-!
# Prefill and decode step

Both calls give the model a batch whose rows it knows by their histories, and
record the most likely token of each. A prefill starts the courses of its
batch below those that are there. A decode step is fed, for each sequence
that is not finished, its last token at its next position, and advances it.
-/

namespace CudaForge.RunnerSteps

open CacheBlocks PythonBuiltins GenerationSettings ServingTypes BatchTensors TokenSampling
open StepwiseRunner RunnerTables SequenceCourses

variable {κ : Type} {stores : Stores κ} {depth vocabulary : ℕ} {backend : Backend κ} {draw : Draw}
variable {tokenizer : Tokenizer} {tokensOf : String → List ℕ} {logitsOf : History → List ℚ}
variable {output : ModelOutput κ}
variable {runner : Runner κ} {courses lives : List Course}
variable {arrivals : List SequenceState} {items : List (History×SequenceState)}
variable {cache incoming : Cache κ} {mask incomingMask last first new : Tensor ℕ}

/-- Greedy, and no more candidates asked for than there are. -/
def Fit (vocabulary : ℕ) (generation : GenerationConfig) : Prop :=
  generation.greedy=true ∧ generation.topK≤vocabulary

instance (generation : GenerationConfig) : Decidable (Fit vocabulary generation) :=
  inferInstanceAs (Decidable (generation.greedy=true ∧ generation.topK≤vocabulary))

/-- A history and a sequence with the most likely token recorded. -/
def pickItem (tokenizer : Tokenizer) (logitsOf : History → List ℚ)
    (item : History×SequenceState) : Course := Course.pick tokenizer logitsOf item.1 item.2

/-- A left mask puts the entries it shows at positions from zero on. -/
theorem positions_leftMask (hidden shown : ℕ) :
    (cumulative 0 (leftMask hidden shown)).map (·-1)=
      List.replicate hidden 0++List.range shown := by
  have hones : (List.range shown).map ((·-1)∘(0+1+·))=List.range shown := by
    conv_rhs => rw [←List.map_id (List.range shown)]
    refine List.map_congr_left ?_
    intro n _
    simp only [Function.comp,id]
    omega
  rw [leftMask,cumulative_append,List.sum_replicate,smul_zero,Nat.add_zero,cumulative_zeros,
    cumulative_ones,List.map_append,List.map_replicate,List.map_map,hones]

/-- The last logits of an output that continues histories. -/
theorem lastLogits_ok {histories : List History}
    (h : output.logits.map List.getLast?=histories.map (fun history => some (logitsOf history))) :
    lastLogits output.logits=.ok (histories.map logitsOf) := by
  have hrow : ∀ row∈output.logits, ∃ history, row.getLast?=some (logitsOf history) := by
    intro row hr
    obtain ⟨history,_,hh⟩ := List.mem_map.mp (h ▸ List.mem_map_of_mem hr)
    exact ⟨history,hh.symm⟩
  have hmap : output.logits.map (fun row => row.getLast?.getD [])=histories.map logitsOf := by
    have hd := congrArg (List.map (fun last => Option.getD last [])) h
    rwa [List.map_map,List.map_map] at hd
  rw [lastLogits,←hmap]
  refine mapM_ok ?_
  intro row hr
  obtain ⟨history,hh⟩ := hrow row hr
  simp only [hh,Option.getD_some]

/-- Recording tokens for sequences, one each. -/
theorem record_ok {α : Type} (xs : List α) (state : α → SequenceState) (token : α → ℕ) :
    record tokenizer (xs.map state) (xs.map token)=
      .ok (xs.map (fun x => recordToken tokenizer (state x) (token x))) := by
  rw [record,zipStrict,if_pos (by rw [List.length_map,List.length_map]),ok_bind,
    List.zip_map',List.map_map]
  rfl

/-- From an output that continues histories the most likely tokens are picked
and recorded. -/
theorem tokens_picked (draw : Draw)
    (hm : ReadsHistory backend.model stores logitsOf depth vocabulary)
    (hc : Continues stores logitsOf depth output mask (items.map Prod.fst))
    (hf : ∀ item∈items, Fit vocabulary item.2.generation) :
    lastLogits output.logits=.ok (items.map (fun item => logitsOf item.1)) ∧
      sample backend.softmax draw (items.map (fun item => logitsOf item.1))
        (items.map (fun item => item.2.generation))=
        .ok (items.map (fun item => bestToken (logitsOf item.1))) ∧
      record backend.tokenizer (items.map Prod.snd)
        (items.map (fun item => bestToken (logitsOf item.1)))=
        .ok (items.map (fun item => (pickItem backend.tokenizer logitsOf item).state)) := by
  have hlogits := lastLogits_ok hc.logits
  rw [List.map_map] at hlogits
  refine ⟨hlogits,?_,record_ok items Prod.snd _⟩
  have hrows : ∀ row∈items.map (fun item => logitsOf item.1), row.length=vocabulary := by
    intro row hr
    obtain ⟨item,_,rfl⟩ := List.mem_map.mp hr
    exact hm.vocabulary_eq _
  refine (sample_greedy (by rw [List.length_map,List.length_map]) ?_ ?_ ?_).trans ?_
  · intro setting hs
    obtain ⟨item,hi,rfl⟩ := List.mem_map.mp hs
    exact (hf item hi).1
  · intro row hr hnil
    have hv := hrows row hr
    rw [hnil] at hv
    exact absurd hv (Nat.ne_of_lt hm.vocabulary_pos)
  · intro setting hs row hr
    obtain ⟨item,hi,rfl⟩ := List.mem_map.mp hs
    rw [hrows row hr]
    exact (hf item hi).2
  · rw [List.map_map]
    rfl

/-- An output that continues histories tables the courses picked from it. -/
theorem tabled_picked (tokenizer : Tokenizer)
    (hc : Continues stores logitsOf depth output mask (items.map Prod.fst))
    (hmask : mask.rows=items.map
      (fun item => leftMask (mask.width-item.1.length) item.1.length)) :
    Tabled stores depth (items.map (pickItem tokenizer logitsOf)) output.pastKeyValues mask
      (Tensor.column (items.map (fun item => bestToken (logitsOf item.1)))) where
  mask_rows := by
    rw [hmask,List.map_map]
    rfl
  last_rows := by
    rw [Tensor.rows_column,List.map_map,List.map_map]
    rfl
  last_width := rfl
  stored := by
    rw [List.map_map]
    exact hc.cache

/-- A batch of prompts, left-padded, shows the prompts' histories. -/
theorem encoded_shown (ht : PadsLeft tokenizer tokensOf) {prompts : List String}
    (hp : prompts≠[]) (hn : ∀ prompt∈prompts, 0<(tokensOf prompt).length) :
    WellFed (tokenizer.encode prompts).attentionMask (tokenizer.encode prompts).inputIds
        (positions (tokenizer.encode prompts).attentionMask) ∧
      shown (tokenizer.encode prompts).attentionMask (tokenizer.encode prompts).inputIds
        (positions (tokenizer.encode prompts).attentionMask)=
        prompts.map (fun prompt => promptHistory (tokensOf prompt)) ∧
      (tokenizer.encode prompts).attentionMask.rows=prompts.map (fun prompt =>
        leftMask ((tokenizer.encode prompts).attentionMask.width-(tokensOf prompt).length)
          (tokensOf prompt).length) := by
  obtain ⟨width,pad,hiw,hmw,hir,hmr⟩ := ht prompts hp
  have hpr : (positions (tokenizer.encode prompts).attentionMask).rows=prompts.map
      (fun prompt => List.replicate (width-(tokensOf prompt).length) 0++
        List.range (tokensOf prompt).length) := by
    rw [positions,Tensor.rows_mapRows,hmr,List.map_map]
    exact List.map_congr_left (fun prompt _ => positions_leftMask _ _)
  refine ⟨⟨?_,hiw.trans hmw.symm,?_,rfl,?_⟩,?_,?_⟩
  · rw [Tensor.batch,Tensor.batch,hir,hmr,List.length_map,List.length_map]
  · rw [Tensor.batch,Tensor.batch,hpr,hmr,List.length_map,List.length_map]
  · intro row hr
    obtain ⟨prompt,hm,rfl⟩ := List.mem_map.mp (hmr ▸ hr)
    obtain ⟨n,hs⟩ := Nat.exists_eq_succ_of_ne_zero (Nat.pos_iff_ne_zero.mp (hn prompt hm))
    rw [hs,←leftMask_one,List.getLast?_concat]
  · rw [shown,hmr,hir,hpr,List.zip_map',List.zip_map',List.map_map]
    refine List.map_congr_left ?_
    intro prompt _
    have hzip : (List.replicate (width-(tokensOf prompt).length) pad++tokensOf prompt).zip
        (List.replicate (width-(tokensOf prompt).length) 0++
          List.range (tokensOf prompt).length)=
        List.replicate (width-(tokensOf prompt).length) (pad,0)++
          promptHistory (tokensOf prompt) := by
      rw [List.zip_append (by rw [List.length_replicate,List.length_replicate]),
        List.zip_replicate',promptHistory]
    have hvisible := visible_leftMask
      (List.replicate (width-(tokensOf prompt).length) (pad,0)) (promptHistory (tokensOf prompt))
    rw [List.length_replicate,length_promptHistory] at hvisible
    simp only [Function.comp,hzip]
    exact hvisible
  · rw [hmw]
    exact hmr

/-- Rows below rows: two tables merged. -/
theorem tabled_merge [Zero κ] {others : List Course}
    (h : Tabled stores depth courses cache mask last)
    (h' : Tabled stores depth others incoming incomingMask first) (hd : 0<depth) :
    ∃ layers newMask newLast, firstLength cache=.ok mask.width ∧
      firstLength incoming=.ok incomingMask.width ∧
      mergeLayers (max mask.width incomingMask.width) cache.layers incoming.layers=.ok layers ∧
      catRows (leftPad mask (max mask.width incomingMask.width))
        (leftPad incomingMask (max mask.width incomingMask.width))=.ok newMask ∧
      catRows last first=.ok newLast ∧
      Tabled stores depth (courses++others) {layers := layers} newMask newLast := by
  obtain ⟨layers,newMask,hl,hm,hr,hw,hs⟩ := h.stored.merge h'.stored
    (le_max_left mask.width incomingMask.width) (le_max_right _ _)
  obtain ⟨newLast,hlast,hlr,hlw⟩ := Tensor.stack_eq (h.last_width.trans h'.last_width.symm)
  refine ⟨layers,newMask,newLast,h.stored.firstLength_eq hd,h'.stored.firstLength_eq hd,hl,hm,
    ?_,?_,?_,hlw.trans h.last_width,?_⟩
  · rw [catRows,hlast]
    rfl
  · have hpadded : ∀ {m n : Tensor ℕ} {xs : List Course} {c : Cache κ},
        Tabled stores depth xs c m n → m.width ≤ max mask.width incomingMask.width →
        (m.padZeros (max mask.width incomingMask.width-m.width)).rows=xs.map (fun course =>
          leftMask (max mask.width incomingMask.width-course.history.length)
            course.history.length) := by
      intro m n xs c hx hle
      rw [Tensor.rows_padZeros,hx.mask_rows,List.map_map]
      refine List.map_congr_left ?_
      intro course hc
      have hfit := hx.fits hc
      have hsum : max mask.width incomingMask.width-m.width+(m.width-course.history.length)=
          max mask.width incomingMask.width-course.history.length := by omega
      rw [Function.comp,zeros_leftMask,hsum]
    rw [hr,hw,hpadded h (le_max_left _ _),hpadded h' (le_max_right _ _),List.map_append]
  · rw [hlr,h.last_rows,h'.last_rows,List.map_append]
  · rw [List.map_append]
    exact hs

/-- New rows join the ones that are there. -/
theorem holds_join [Zero κ] {starts : List Course} (h : Holds stores depth runner courses)
    (h' : Tabled stores depth starts incoming incomingMask first) (hd : 0<depth)
    (hne : starts≠[]) (hpos : ∀ course∈starts, 0<course.history.length) (count : ℕ) :
    ∃ merged newLast, mergeCache runner incoming incomingMask=.ok merged ∧
      appendLast merged.last first=.ok newLast ∧
      Holds stores depth {merged with
        rows := merged.rows++starts.map (fun course => course.state.sequenceId)
        last := some newLast
        prefills := count} (courses++starts) := by
  have hjoined : ∀ course∈courses++starts, 0<course.history.length := fun course hc =>
    (List.mem_append.mp hc).elim (h.history_pos course) (hpos course)
  have hids : runner.rows++starts.map (fun course => course.state.sequenceId)=
      (courses++starts).map (fun course => course.state.sequenceId) := by
    rw [List.map_append,h.rows_eq]
  have hjne : courses++starts≠[] := fun hnil => hne (List.append_eq_nil_iff.mp hnil).2
  rcases h.tensors with ⟨rfl,hc,_,hl⟩ | ⟨hcn,cache,mask,last,hc,hm,hl,ht⟩
  · refine ⟨{runner with cache := some incoming, mask := some incomingMask},first,?_,?_,hids,
      hjoined,Or.inr ⟨hjne,incoming,incomingMask,first,rfl,rfl,rfl,h'⟩⟩
    · rw [mergeCache,hc]
    · simp only [hl,appendLast]
  · obtain ⟨layers,newMask,newLast,hfirst,hsecond,hlayers,hmask,hlast,htab⟩ :=
      tabled_merge ht h' hd
    have hrows : runner.rows≠[] := fun hr => hcn (List.map_eq_nil_iff.mp (h.rows_eq ▸ hr))
    refine ⟨{runner with cache := some {layers := layers}, mask := some newMask},newLast,?_,?_,
      hids,hjoined,Or.inr ⟨hjne,_,newMask,newLast,rfl,rfl,rfl,htab⟩⟩
    · rw [mergeCache,hc]
      simp only [if_neg hrows,hm,asserted,ok_bind,hfirst,hsecond,hlayers,hmask]
    · simp only [hl,appendLast,hlast]

/-- `prefill` starts the courses of its batch. -/
theorem prefill_ok [Zero κ] (draw : Draw)
    (hm : ReadsHistory backend.model stores logitsOf depth vocabulary)
    (ht : PadsLeft backend.tokenizer tokensOf) (h : Holds stores depth runner courses)
    (hn : ∀ arrival∈arrivals, 0<(tokensOf arrival.prompt).length)
    (hf : ∀ arrival∈arrivals, Fit vocabulary arrival.generation) :
    ∃ next, prefill backend draw runner arrivals=.ok (next,arrivals.map
        (fun arrival => (Course.start backend.tokenizer tokensOf logitsOf arrival).state)) ∧
      Holds stores depth next
        (courses++arrivals.map (Course.start backend.tokenizer tokensOf logitsOf)) := by
  rw [prefill]
  by_cases hnil : arrivals=[]
  · rw [if_pos hnil,hnil,List.map_nil,List.map_nil,List.append_nil]
    exact ⟨runner,rfl,h⟩
  · rw [if_neg hnil]
    set prompts := arrivals.map SequenceState.prompt with hprompts
    set items : List (History×SequenceState) := arrivals.map (fun arrival =>
      (promptHistory (tokensOf arrival.prompt),
        {arrival with promptTokens := (tokensOf arrival.prompt).length})) with hitems
    have hpn : prompts≠[] := fun hp => hnil (List.map_eq_nil_iff.mp hp)
    obtain ⟨hwell,hshown,hmask⟩ := encoded_shown ht hpn (by
      intro prompt hp
      obtain ⟨arrival,ha,rfl⟩ := List.mem_map.mp hp
      exact hn arrival ha)
    set encoded := backend.tokenizer.encode prompts with hencoded
    set output := backend.model (prefillCall encoded) with houtput
    have hstarts : items.map (pickItem backend.tokenizer logitsOf)=
        arrivals.map (Course.start backend.tokenizer tokensOf logitsOf) := by
      rw [hitems,List.map_map]
      rfl
    have hfirst : items.map Prod.fst=
        prompts.map (fun prompt => promptHistory (tokensOf prompt)) := by
      rw [hitems,hprompts,List.map_map,List.map_map]
      rfl
    have hcontinues : Continues stores logitsOf depth output encoded.attentionMask
        (items.map Prod.fst) := by
      rw [hfirst,←hshown]
      exact hm.fresh (prefillCall encoded) rfl hwell
    have hfit : ∀ item∈items, Fit vocabulary item.2.generation := by
      intro item hi
      obtain ⟨arrival,ha,rfl⟩ := List.mem_map.mp hi
      exact hf arrival ha
    have hcounts : zipStrict arrivals (encoded.attentionMask.rows.map List.sum)=
        .ok (arrivals.map (fun arrival => (arrival,(tokensOf arrival.prompt).length))) := by
      have hsums : encoded.attentionMask.rows.map List.sum=
          arrivals.map (fun arrival => (tokensOf arrival.prompt).length) := by
        rw [hmask,hprompts,List.map_map,List.map_map]
        exact List.map_congr_left (fun arrival _ => sum_leftMask _ _)
      have hzip : arrivals.zip (arrivals.map (fun arrival => (tokensOf arrival.prompt).length))=
          arrivals.map (fun arrival => (arrival,(tokensOf arrival.prompt).length)) := by
        conv_lhs => rw [←List.map_id arrivals,List.map_map,List.zip_map']
        rfl
      rw [hsums,zipStrict,if_pos (List.length_map _).symm,hzip]
    have hmaskItems : encoded.attentionMask.rows=items.map (fun item =>
        leftMask (encoded.attentionMask.width-item.1.length) item.1.length) := by
      rw [hmask,hprompts,hitems,List.map_map,List.map_map]
      refine List.map_congr_left ?_
      intro arrival _
      simp only [Function.comp,length_promptHistory]
    have hpos : ∀ course∈items.map (pickItem backend.tokenizer logitsOf),
        0<course.history.length := by
      intro course hc
      obtain ⟨item,hi,rfl⟩ := List.mem_map.mp hc
      obtain ⟨arrival,ha,rfl⟩ := List.mem_map.mp hi
      have hlen := hn arrival ha
      simpa only [pickItem,Course.pick,length_promptHistory] using hlen
    have hne : items.map (pickItem backend.tokenizer logitsOf)≠[] := fun hi =>
      hnil (List.map_eq_nil_iff.mp (List.map_eq_nil_iff.mp hi))
    obtain ⟨hlogits,hsample,hrecord⟩ := tokens_picked draw hm hcontinues hfit
    obtain ⟨merged,newLast,hmerge,hlast,hholds⟩ := holds_join h
      (tabled_picked backend.tokenizer hcontinues hmaskItems) hm.depth_pos hne hpos
      (runner.prefills+1)
    have hsettings : items.map (fun item => item.2.generation)=
        arrivals.map SequenceState.generation := by
      rw [hitems,List.map_map]
      rfl
    have hcounted : (arrivals.map (fun arrival => (arrival,(tokensOf arrival.prompt).length))).map
        (fun pair => {pair.1 with promptTokens := pair.2})=items.map Prod.snd := by
      rw [hitems,List.map_map,List.map_map]
      rfl
    have hstates : items.map (fun item => (pickItem backend.tokenizer logitsOf item).state)=
        arrivals.map (fun arrival =>
          (Course.start backend.tokenizer tokensOf logitsOf arrival).state) := by
      rw [hitems,List.map_map]
      rfl
    have hids : (items.map (pickItem backend.tokenizer logitsOf)).map
        (fun course => course.state.sequenceId)=arrivals.map SequenceState.sequenceId := by
      rw [hitems,List.map_map,List.map_map]
      exact List.map_congr_left (fun arrival _ => (recordToken_keeps _).1)
    rw [hsettings] at hsample
    rw [hids,hstarts] at hholds
    rw [hstates] at hrecord
    refine ⟨_,?_,hholds⟩
    simp only [←houtput,hmerge,hcounts,hlogits,hcounted,hsample,hlast,hrecord,ok_bind]

/-- The sequence is not finished. -/
def isActive (course : Course) : Bool := !course.state.finished

/-- A sequence about to take a decode step: its history with the token it is
fed, at the position it is fed at. -/
def stepItem (course : Course) : History×SequenceState :=
  (course.history++[(course.last,course.history.length)],course.state)

/-- The only entry that satisfies a predicate is found. -/
theorem find?_unique {α : Type} {p : α → Bool} {xs : List α} {x : α} (hx : x∈xs) (hp : p x=true)
    (hu : ∀ y∈xs, p y=true → y=x) : xs.find? p=some x := by
  cases hfind : xs.find? p with
  | none => exact absurd hp (List.find?_eq_none.mp hfind x hx)
  | some y => rw [hu y (List.mem_of_find?_eq_some hfind) (List.find?_some hfind)]

/-- The mask grown by the new token, and what the model is fed. -/
theorem tabled_fed (h : Tabled stores depth courses cache mask last) (hne : courses≠[])
    (hpos : ∀ course∈courses, 0<course.history.length) :
    ∃ new grown, (mask.firstColumns 1).onesLike=new ∧ mask.beside new=some grown ∧
      grown.width=mask.width+1 ∧
      grown.rows=courses.map (fun course =>
        leftMask (mask.width-course.history.length) (course.history.length+1)) ∧
      ((positions grown).lastColumns 1).rows=courses.map (fun course =>
        [course.history.length]) ∧
      WellFed new last ((positions grown).lastColumns 1) ∧
      shown new last ((positions grown).lastColumns 1)=courses.map (fun course =>
        [(course.last,course.history.length)]) := by
  have hwidth : 0 < mask.width := by
    obtain ⟨course,hc⟩ := List.exists_mem_of_ne_nil courses hne
    exact (hpos course hc).trans_le (h.fits hc)
  set new : Tensor ℕ := (mask.firstColumns 1).onesLike with hnew
  have hnr : new.rows=courses.map (fun _ => [1]) := by
    rw [hnew,Tensor.rows_onesLike,Tensor.rows_firstColumns,h.mask_rows,List.map_map,List.map_map]
    refine List.map_congr_left ?_
    intro course hc
    have hfit := h.fits hc
    have hlen : min 1 (mask.width-course.history.length+course.history.length)=1 := by omega
    simp only [Function.comp,List.length_take,length_leftMask,hlen]
    rfl
  have hnw : new.width=1 := Nat.min_eq_left hwidth
  have hbatch : mask.batch=new.batch := by
    rw [Tensor.batch,Tensor.batch,h.mask_rows,hnr,List.length_map,List.length_map]
  obtain ⟨grown,hg,hgr,hgw⟩ := Tensor.beside_eq hbatch
  have hgrows : grown.rows=courses.map (fun course =>
      leftMask (mask.width-course.history.length) (course.history.length+1)) := by
    rw [hgr,h.mask_rows,hnr,List.zip_map',List.map_map]
    exact List.map_congr_left (fun course _ => leftMask_one _ _)
  have hpw : (positions grown).width=mask.width+1 := hgw.trans (congrArg _ hnw)
  have hprows : ((positions grown).lastColumns 1).rows=courses.map (fun course =>
      [course.history.length]) := by
    rw [Tensor.rows_lastColumns,hpw,Nat.add_sub_cancel,positions,Tensor.rows_mapRows,hgrows,
      List.map_map,List.map_map]
    refine List.map_congr_left ?_
    intro course hc
    have hfit := h.fits hc
    have hlen : (List.replicate (mask.width-course.history.length) 0++
        List.range course.history.length).length=mask.width := by
      rw [List.length_append,List.length_replicate,List.length_range]
      omega
    simp only [Function.comp,positions_leftMask,List.range_succ]
    rw [←List.append_assoc]
    exact List.drop_left' hlen
  refine ⟨new,grown,rfl,hg,hgw.trans (congrArg _ hnw),hgrows,hprows,⟨?_,?_,?_,?_,?_⟩,?_⟩
  · rw [Tensor.batch,Tensor.batch,h.last_rows,hnr,List.length_map,List.length_map]
  · rw [h.last_width,hnw]
  · rw [Tensor.batch,Tensor.batch,hprows,hnr,List.length_map,List.length_map]
  · have hlw : ((positions grown).lastColumns 1).width=
        (positions grown).width-((positions grown).width-1) := rfl
    rw [hlw,hpw,hnw]
    omega
  · intro row hr
    rw [hnr] at hr
    obtain ⟨_,_,rfl⟩ := List.mem_map.mp hr
    rfl
  · rw [shown,hnr,h.last_rows,hprows,List.zip_map',List.zip_map',List.map_map]
    rfl

/-- A step whose sequences are all finished does nothing. -/
theorem prepareStep_idle {states : List SequenceState} (h : activeStates states=[]) :
    prepareStep runner states=.ok (runner,none) := if_pos (Or.inl h)

/-- A step with something to do keeps the rows that are active and calls the
model on them. -/
theorem prepareStep_ok {states : List SequenceState} (h : Holds stores depth runner courses)
    (hs : activeStates states≠[])
    (hw : ∀ course∈courses, course.state.sequenceId∈
      (activeStates states).map SequenceState.sequenceId ↔ isActive course=true)
    (hne : courses.filter isActive≠[]) :
    ∃ (kept : Runner κ) (cache : Cache κ) (mask last new grown : Tensor ℕ),
      prepareStep runner states=
        .ok ({kept with mask := some grown},some (stepCall last grown cache)) ∧
      kept.rows=(courses.filter isActive).map (fun course => course.state.sequenceId) ∧
      Tabled stores depth (courses.filter isActive) cache mask last ∧
      mask.beside new=some grown ∧ grown.width=mask.width+1 ∧
      grown.rows=(courses.filter isActive).map (fun course =>
        leftMask (mask.width-course.history.length) (course.history.length+1)) ∧
      ((positions grown).lastColumns 1).rows=(courses.filter isActive).map (fun course =>
        [course.history.length]) ∧
      WellFed new last ((positions grown).lastColumns 1) ∧
      shown new last ((positions grown).lastColumns 1)=(courses.filter isActive).map
        (fun course => [(course.last,course.history.length)]) := by
  set wanted := (activeStates states).map SequenceState.sequenceId with hwanted
  set p := fun row : SequenceId => decide (row∈wanted) with hp
  have hfilter : courses.filter (fun course => p course.state.sequenceId)=
      courses.filter isActive := by
    refine List.filter_congr ?_
    intro course hc
    rw [Bool.eq_iff_iff,hp]
    exact decide_eq_true_iff.trans (hw course hc)
  set counted : Runner κ := {runner with steps := runner.steps+1} with hcounted
  have hcount : Holds stores depth counted courses := ⟨h.rows_eq,h.history_pos,h.tensors⟩
  have hkept : ∃ kept, dropRetired counted wanted=.ok kept ∧
      Holds stores depth kept (courses.filter isActive) := by
    rw [dropRetired]
    by_cases hlen : (positionsOf p counted.rows).length≠counted.rows.length
    · rw [if_pos hlen,←hfilter]
      exact hcount.keepRows_ok p
    · have hsame : courses.filter isActive=courses := by
        rw [not_not,hcount.rows_eq,positionsOf_map,length_positionsOf,List.length_map,
          hfilter] at hlen
        exact List.filter_sublist.eq_of_length hlen
      rw [if_neg hlen,hsame]
      exact ⟨counted,rfl,hcount⟩
  obtain ⟨kept,hk,hheld⟩ := hkept
  have hcn : courses≠[] := fun hc => hne (by rw [hc,List.filter_nil])
  have hsome : ¬(activeStates states=[] ∨ runner.cache.isNone ∨ runner.last.isNone) := by
    rcases h.tensors with ⟨hc,_⟩ | ⟨_,cache,mask,last,hc,_,hl,_⟩
    · exact absurd hc hcn
    · rw [hc,hl]
      rintro (h1 | h1 | h1)
      · exact hs h1
      · exact Bool.false_ne_true h1
      · exact Bool.false_ne_true h1
  rcases hheld.tensors with ⟨hc,_⟩ | ⟨_,cache,mask,last,hc,hm,hl,ht⟩
  · exact absurd hc hne
  · obtain ⟨new,grown,hnew,hg,hgw,hgr,hpr,hwell,hshown⟩ := tabled_fed ht hne hheld.history_pos
    have hrows : kept.rows≠[] := fun hr => hne (List.map_eq_nil_iff.mp (hheld.rows_eq ▸ hr))
    refine ⟨kept,cache,mask,last,new,grown,?_,hheld.rows_eq,ht,hg,hgw,hgr,hpr,hwell,hshown⟩
    have hcat : catColumns mask (mask.firstColumns 1).onesLike=.ok grown := by
      rw [catColumns,hnew,hg]
      rfl
    rw [prepareStep,if_neg hsome]
    simp only [←hwanted,←hcounted,hk,ok_bind,if_neg hrows,hm,hl,hc,asserted,hcat]

/-- The active sequences of a step are those that are not finished. -/
theorem activeStates_map : activeStates (lives.map Course.state)=
    (lives.filter isActive).map Course.state := by
  rw [activeStates,List.filter_map]
  rfl

/-- The rows of the runner are rows of these sequences, and those that are not
finished all have one. -/
structure Covers (lives courses : List Course) : Prop where
  distinct : (lives.map (fun course => course.state.sequenceId)).Nodup
  known : ∀ course∈courses, course∈lives
  present : ∀ course∈lives, isActive course=true → course∈courses

namespace Covers

variable (h : Covers lives courses)
include h

/-- Sequences with one id are one. -/
theorem eq_of_id {course other : Course} (hc : course∈lives) (ho : other∈lives)
    (he : course.state.sequenceId=other.state.sequenceId) : course=other :=
  List.inj_on_of_nodup_map h.distinct hc ho he

/-- A row is wanted when its sequence is not finished. -/
theorem wanted_iff {course : Course} (hc : course∈courses) : course.state.sequenceId∈
    (activeStates (lives.map Course.state)).map SequenceState.sequenceId ↔
      isActive course=true := by
  rw [activeStates_map,List.map_map]
  constructor
  · intro hm
    obtain ⟨other,ho,he⟩ := List.mem_map.mp hm
    obtain ⟨hl,ha⟩ := List.mem_filter.mp ho
    rwa [h.eq_of_id (h.known course hc) hl he.symm]
  · intro ha
    exact List.mem_map_of_mem (List.mem_filter.mpr ⟨h.known course hc,ha⟩)

/-- A step with something to do has a row to do it for. -/
theorem active_ne_nil (hs : activeStates (lives.map Course.state)≠[]) :
    courses.filter isActive≠[] := by
  obtain ⟨state,hm⟩ := List.exists_mem_of_ne_nil _ hs
  rw [activeStates_map] at hm
  obtain ⟨course,hc,_⟩ := List.mem_map.mp hm
  obtain ⟨hl,ha⟩ := List.mem_filter.mp hc
  exact List.ne_nil_of_mem (List.mem_filter.mpr ⟨h.present course hl ha,ha⟩)

/-- A row's sequence is found by its id. -/
theorem byId_eq {course : Course} (hc : course∈courses) (ha : isActive course=true) :
    byId (activeStates (lives.map Course.state)) course.state.sequenceId=.ok course.state := by
  have hfind : (activeStates (lives.map Course.state)).reverse.find?
      (fun state => decide (state.sequenceId=course.state.sequenceId))=some course.state := by
    refine find?_unique ?_ (decide_eq_true rfl) ?_
    · rw [activeStates_map,List.mem_reverse]
      exact List.mem_map_of_mem (List.mem_filter.mpr ⟨h.known course hc,ha⟩)
    · intro state hs he
      rw [activeStates_map,List.mem_reverse] at hs
      obtain ⟨other,ho,rfl⟩ := List.mem_map.mp hs
      rw [h.eq_of_id (List.mem_filter.mp ho).1 (h.known course hc) (of_decide_eq_true he)]
  rw [byId,hfind]

/-- What the caller sees after the active rows were written to. -/
theorem written_eq : written (lives.map Course.state) ((courses.filter isActive).map
      (fun course => (course.advance tokenizer logitsOf).state))=
    lives.map (fun course => (course.advance tokenizer logitsOf).state) := by
  rw [written,List.map_map]
  refine List.map_congr_left ?_
  intro course hc
  simp only [Function.comp]
  by_cases ha : isActive course=true
  · have hfind : ((courses.filter isActive).map
        (fun course => (course.advance tokenizer logitsOf).state)).find?
        (fun other => decide (other.sequenceId=course.state.sequenceId))=
        some (course.advance tokenizer logitsOf).state := by
      refine find?_unique ?_ (decide_eq_true advance_keeps.1) ?_
      · exact List.mem_map_of_mem (f := fun course => (course.advance tokenizer logitsOf).state)
          (List.mem_filter.mpr ⟨h.present course hc ha,ha⟩)
      · intro state hs he
        obtain ⟨other,ho,rfl⟩ := List.mem_map.mp hs
        have hid := of_decide_eq_true he
        rw [advance_keeps.1] at hid
        rw [h.eq_of_id (h.known other (List.mem_filter.mp ho).1) hc hid]
    rw [hfind,Option.getD_some]
  · have hnone : ((courses.filter isActive).map
        (fun course => (course.advance tokenizer logitsOf).state)).find?
        (fun other => decide (other.sequenceId=course.state.sequenceId))=none := by
      refine List.find?_eq_none.mpr ?_
      intro state hs he
      obtain ⟨other,ho,rfl⟩ := List.mem_map.mp hs
      obtain ⟨hm,hactive⟩ := List.mem_filter.mp ho
      have hid := of_decide_eq_true he
      rw [advance_keeps.1] at hid
      exact ha (h.eq_of_id (h.known other hm) hc hid ▸ hactive)
    have hdone : course.state.finished=true := by
      simpa only [isActive,Bool.not_eq_true',Bool.not_eq_false] using ha
    rw [hnone,Option.getD_none,advance_finished hdone]

end Covers

/-- Picking after a step's feed is advancing. -/
theorem pickItem_stepItem {course : Course} (ha : isActive course=true) :
    pickItem tokenizer logitsOf (stepItem course)=course.advance tokenizer logitsOf := by
  have hactive : course.state.finished=false := by
    simpa only [isActive,Bool.not_eq_true'] using ha
  rw [advance_active hactive]
  rfl

/-- The rows a step leaves: all of them if there is nothing to do, else those
that are not finished. -/
def stepRows (lives courses : List Course) : List Course :=
  if lives.filter isActive=[] then courses else courses.filter isActive

/-- The rows a step leaves cover the same sequences. -/
theorem Covers.stepRows (h : Covers lives courses) : Covers lives (stepRows lives courses) := by
  rw [RunnerSteps.stepRows]
  by_cases hidle : lives.filter isActive=[]
  · rw [if_pos hidle]
    exact h
  · rw [if_neg hidle]
    exact ⟨h.distinct,fun course hc => h.known course (List.mem_of_mem_filter hc),
      fun course hl ha => List.mem_filter.mpr ⟨h.present course hl ha,ha⟩⟩

/-- `decode_step` advances the sequences that are not finished, and keeps the
rows of all of them. -/
theorem decodeStep_ok (draw : Draw)
    (hm : ReadsHistory backend.model stores logitsOf depth vocabulary)
    (h : Holds stores depth runner courses) (hc : Covers lives courses)
    (hf : ∀ course∈courses, Fit vocabulary course.state.generation) :
    ∃ next, decodeStep backend draw runner (lives.map Course.state)=.ok (next,
        lives.map (fun course => (course.advance backend.tokenizer logitsOf).state)) ∧
      Holds stores depth next
        ((stepRows lives courses).map (Course.advance backend.tokenizer logitsOf)) := by
  rw [stepRows]
  by_cases hidle : lives.filter isActive=[]
  · have hdone : ∀ course∈lives, course.advance backend.tokenizer logitsOf=course := by
      intro course hl
      have ha := List.filter_eq_nil_iff.mp hidle course hl
      exact advance_finished (by simpa only [isActive,Bool.not_eq_true',Bool.not_eq_false] using ha)
    have hnone : activeStates (lives.map Course.state)=[] := by
      rw [activeStates_map,hidle,List.map_nil]
    have hlives : lives.map (fun course => (course.advance backend.tokenizer logitsOf).state)=
        lives.map Course.state :=
      List.map_congr_left (fun course hl => congrArg Course.state (hdone course hl))
    have hcourses : courses.map (Course.advance backend.tokenizer logitsOf)=courses := by
      conv_rhs => rw [←List.map_id courses]
      exact List.map_congr_left (fun course hk => hdone course (hc.known course hk))
    rw [if_pos hidle,hcourses,hlives,decodeStep,prepareStep_idle hnone]
    exact ⟨runner,rfl,h⟩
  · rw [if_neg hidle]
    have hs : activeStates (lives.map Course.state)≠[] := by
      rw [activeStates_map]
      exact fun hnil => hidle (List.map_eq_nil_iff.mp hnil)
    have hne := hc.active_ne_nil hs
    obtain ⟨kept,cache,mask,last,new,grown,hprep,hrows,ht,hbeside,hgw,hgr,_,hwell,hshown⟩ :=
      prepareStep_ok h hs (fun course hk => hc.wanted_iff hk) hne
    set active := courses.filter isActive with hactive
    have hmem : ∀ course∈active, course∈courses ∧ isActive course=true :=
      fun course ha => List.mem_filter.mp ha
    set items := active.map stepItem with hitems
    set output := backend.model (stepCall last grown cache) with houtput
    have hfirst : ((active.map Course.history).zip (shown new last
        ((positions grown).lastColumns 1))).map (fun history => history.1++history.2)=
        items.map Prod.fst := by
      rw [hshown,List.zip_map',List.map_map,hitems,List.map_map]
      rfl
    have hcontinues : Continues stores logitsOf depth output grown (items.map Prod.fst) :=
      hfirst ▸ hm.extended (stepCall last grown cache) cache rfl mask new _ hbeside ht.stored hwell
    have hfit : ∀ item∈items, Fit vocabulary item.2.generation := by
      intro item hi
      obtain ⟨course,ha,rfl⟩ := List.mem_map.mp hi
      exact hf course (hmem course ha).1
    have hmask : grown.rows=items.map
        (fun item => leftMask (grown.width-item.1.length) item.1.length) := by
      rw [hgr,hitems,List.map_map,hgw]
      refine List.map_congr_left ?_
      intro course _
      simp only [Function.comp,stepItem,List.length_append,List.length_singleton,
        Nat.add_sub_add_right]
    have hadvance : items.map (pickItem backend.tokenizer logitsOf)=
        active.map (Course.advance backend.tokenizer logitsOf) := by
      rw [hitems,List.map_map]
      exact List.map_congr_left (fun course ha => pickItem_stepItem (hmem course ha).2)
    have htab := tabled_picked backend.tokenizer hcontinues hmask
    obtain ⟨hlogits,hsample,hrecord⟩ := tokens_picked draw hm hcontinues hfit
    have hordered : kept.rows.mapM (byId (activeStates (lives.map Course.state)))=
        .ok (active.map Course.state) := by
      rw [hrows,List.mapM_map]
      exact mapM_ok (fun course ha => hc.byId_eq (hmem course ha).1 (hmem course ha).2)
    have hsettings : (active.map Course.state).map SequenceState.generation=
        items.map (fun item => item.2.generation) := by
      rw [hitems,List.map_map,List.map_map]
      rfl
    have hstates : active.map Course.state=items.map Prod.snd := by
      rw [hitems,List.map_map]
      rfl
    have hrecorded : items.map (fun item => (pickItem backend.tokenizer logitsOf item).state)=
        active.map (fun course => (course.advance backend.tokenizer logitsOf).state) := by
      have hleft : (items.map (pickItem backend.tokenizer logitsOf)).map Course.state=
          items.map (fun item => (pickItem backend.tokenizer logitsOf item).state) := List.map_map
      rw [←hleft,hadvance,List.map_map]
      rfl
    rw [hrecorded,←hstates] at hrecord
    rw [←hsettings] at hsample
    rw [hadvance] at htab
    refine ⟨{kept with
      mask := some grown
      cache := some output.pastKeyValues
      last := some (Tensor.column (items.map (fun item => bestToken (logitsOf item.1))))},
      ?_,?_,?_,Or.inr ⟨?_,_,_,_,rfl,rfl,rfl,htab⟩⟩
    · rw [decodeStep,hprep]
      simp only [ok_bind,←houtput,hordered,hlogits,hsample,hrecord]
      rw [hactive,hc.written_eq]
    · rw [hrows,List.map_map]
      exact List.map_congr_left (fun course _ => advance_keeps.1.symm)
    · intro course hk
      obtain ⟨before,hb,rfl⟩ := List.mem_map.mp hk
      obtain ⟨hbc,hba⟩ := hmem before hb
      rw [←pickItem_stepItem hba]
      exact List.length_pos_of_ne_nil (List.append_ne_nil_of_right_ne_nil _ (List.cons_ne_nil _ _))
    · exact fun hnil => hne (List.map_eq_nil_iff.mp hnil)

/-- The one call of the model that `decode_step` prepares is all it asks the
model, and the answer's cache is kept. -/
theorem decodeStep_called {prepared next : Runner κ} {states after : List SequenceState}
    {call : ModelCall κ} (hp : prepareStep runner states=.ok (prepared,some call))
    (hd : decodeStep backend draw runner states=.ok (next,after)) :
    next.rows=prepared.rows ∧ next.cache=some (backend.model call).pastKeyValues ∧
      ∀ model, model call=backend.model call →
        decodeStep {backend with model := model} draw runner states=
          decodeStep backend draw runner states := by
  have hkept : next.rows=prepared.rows ∧
      next.cache=some (backend.model call).pastKeyValues := by
    rw [decodeStep,hp,ok_bind] at hd
    obtain ⟨ordered,_,hd⟩ := of_bind_ok hd
    obtain ⟨logits,_,hd⟩ := of_bind_ok hd
    obtain ⟨tokens,_,hd⟩ := of_bind_ok hd
    obtain ⟨recorded,_,hd⟩ := of_bind_ok hd
    rw [←(Prod.mk.inj (Except.ok.inj hd)).1]
    exact ⟨rfl,rfl⟩
  refine ⟨hkept.1,hkept.2,?_⟩
  intro model hm
  rw [decodeStep,decodeStep,hp,ok_bind,ok_bind]
  simp only [hm]

end CudaForge.RunnerSteps
