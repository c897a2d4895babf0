import Mathlib.Tactic

/-!
# Programs of threads that meet at barriers

The threads of a block run programs that are cut into stages by barriers. In
each round every thread runs one stage, the threads one after another in some
order, and sees what the threads before it have stored. Where no thread reads
what another one stores in the same round, the order does not matter. A block in
which some thread ends while another one waits at a barrier does not get on.
-/

namespace CudaForge.BarrierPrograms

variable {T R A K : Type}

/-- What a thread does up to its next barrier: from its registers and the memory
it gets its new registers and what it stores. -/
abbrev Stage (R A K : Type) := R → (A → K) → R×List (A×K)

/-- A block between two rounds. -/
structure BlockState (T R A K : Type) where
  /-- The registers of each thread. -/
  registers : T → R
  /-- The memory that the threads share. -/
  memory : A → K
  /-- The addresses stored to so far, as often as they were. -/
  stored : List A

section Runs

variable [DecidableEq T] [DecidableEq A]

/-- One store after another. -/
def storeAll (stores : List (A×K)) (memory : A → K) : A → K :=
  stores.foldl (fun memory store => Function.update memory store.1 store.2) memory

/-- A thread runs a stage. -/
def BlockState.advance (s : BlockState T R A K) (stage : Stage R A K) (thread : T) :
    BlockState T R A K :=
  let done := stage (s.registers thread) s.memory
  ⟨Function.update s.registers thread done.1,storeAll done.2 s.memory,
    s.stored++done.2.map Prod.fst⟩

/-- Every thread runs its stage. -/
def runStage (stage : T → Stage R A K) (order : List T) (s : BlockState T R A K) :
    BlockState T R A K :=
  order.foldl (fun s thread => s.advance (stage thread) thread) s

/-- Stages that all threads share the cut of, round after round. -/
def runStages (order : ℕ → List T) : ℕ → List (T → Stage R A K) → BlockState T R A K →
    BlockState T R A K
  | _,[],s => s
  | round,stage::stages,s => runStages order (round+1) stages (runStage stage (order round) s)

/-- What a thread does that has ended. -/
def idle : Stage R A K := fun registers _ => (registers,[])

/-- The threads run their programs, for at most so many rounds. After a round
either all of them have ended or all of them wait at a barrier; a block where
some have ended and some wait does not return. -/
def runPrograms (order : ℕ → List T) : ℕ → ℕ → (T → List (Stage R A K)) → BlockState T R A K →
    Option (BlockState T R A K)
  | 0,_,_,_ => none
  | rounds+1,round,programs,s =>
    let next := runStage (fun thread => (programs thread).headD idle) (order round) s
    let left := fun thread => (programs thread).tail
    if (order round).all (fun thread => (left thread).isEmpty) then some next
    else if (order round).any (fun thread => (left thread).isEmpty) then none
    else runPrograms order rounds (round+1) left next

variable {order : ℕ → List T} {round : ℕ}

/-- Threads whose programs are cut alike pass every barrier. -/
theorem runPrograms_cut (horder : ∀ round, order round≠[]) {stages : List (T → Stage R A K)}
    (hs : stages≠[]) (s : BlockState T R A K) :
    runPrograms order stages.length round
      (fun thread => stages.map (fun stage => stage thread)) s=
        some (runStages order round stages s) := by
  induction stages generalizing round s with
  | nil => exact absurd rfl hs
  | cons stage stages ih =>
    rw [List.length_cons,runPrograms]
    cases stages with
    | nil => exact if_pos (List.all_eq_true.mpr (fun _ _ => rfl))
    | cons second stages =>
      have hall : ¬(order round).all (fun thread =>
          ((second::stages).map (fun stage => stage thread)).isEmpty)=true := by
        intro h
        obtain ⟨thread,hm⟩ := List.exists_mem_of_ne_nil _ (horder round)
        exact Bool.false_ne_true (List.all_eq_true.mp h thread hm)
      have hany : ¬(order round).any (fun thread =>
          ((second::stages).map (fun stage => stage thread)).isEmpty)=true := by
        intro h
        obtain ⟨thread,_,he⟩ := List.any_eq_true.mp h
        exact Bool.false_ne_true he
      exact (if_neg hall).trans ((if_neg hany).trans (ih (List.cons_ne_nil _ _) _))

/-- One run of stages after another. -/
theorem runStages_append (front back : List (T → Stage R A K)) (s : BlockState T R A K) :
    runStages order round (front++back) s=
      runStages order (round+front.length) back (runStages order round front s) := by
  induction front generalizing round s with
  | nil => rfl
  | cons stage front ih =>
    rw [List.cons_append,runStages,ih,List.length_cons,Nat.add_right_comm]
    rfl

end Runs

section Stores

variable [DecidableEq A] {stores : List (A×K)} {memory : A → K} {address : A}

/-- An address that nothing is stored to keeps its value. -/
theorem storeAll_other (h : address∉stores.map Prod.fst) :
    storeAll stores memory address=memory address := by
  induction stores generalizing memory with
  | nil => rfl
  | cons store stores ih =>
    rw [List.map_cons,List.mem_cons,not_or] at h
    exact (ih h.2).trans (Function.update_of_ne h.1 _ _)

/-- An address that only one value is stored to has it. -/
theorem storeAll_value {value : K} (hm : address∈stores.map Prod.fst)
    (h : ∀ store∈stores, store.1=address → store.2=value) :
    storeAll stores memory address=value := by
  induction stores generalizing memory with
  | nil => exact absurd hm List.not_mem_nil
  | cons store stores ih =>
    have hrest := fun other ho => h other (List.mem_cons_of_mem store ho)
    change storeAll stores (Function.update memory store.1 store.2) address=value
    by_cases hlater : address∈stores.map Prod.fst
    · exact ih hlater hrest
    · rw [storeAll_other hlater]
      rcases List.mem_cons.mp hm with he|hm
      · rw [he,Function.update_self]
        exact h store List.mem_cons_self he.symm
      · exact absurd hm hlater

/-- Stores of one value for each address of a region put these values there. -/
theorem storeAll_region (value : A → K) (region : A → Prop) [DecidablePred region]
    (h : ∀ store, store∈stores ↔ ∃ address, region address ∧ store=(address,value address)) :
    storeAll stores memory address=if region address then value address else memory address := by
  split
  · next hin =>
    refine storeAll_value (List.mem_map.mpr ⟨_,(h _).mpr ⟨address,hin,rfl⟩,rfl⟩) ?_
    intro store hm he
    obtain ⟨other,_,rfl⟩ := (h store).mp hm
    exact congrArg value he
  · next hout =>
    refine storeAll_other (fun hm => hout ?_)
    obtain ⟨store,hs,rfl⟩ := List.mem_map.mp hm
    obtain ⟨other,hin,rfl⟩ := (h store).mp hs
    exact hin

/-- Stores one after another. -/
theorem storeAll_append (front back : List (A×K)) :
    storeAll (front++back) memory=storeAll back (storeAll front memory) :=
  List.foldl_append

end Stores

section Rounds

/-- What a thread stores in a stage. -/
def storesOf (stage : T → Stage R A K) (s : BlockState T R A K) (thread : T) : List (A×K) :=
  (stage thread (s.registers thread) s.memory).2

/-- No thread's stage depends on what the others store in it. -/
def Apart (stage : T → Stage R A K) (order : List T) (s : BlockState T R A K) : Prop :=
  ∀ thread∈order, ∀ memory : A → K,
    (∀ address, (∀ other∈order, other≠thread → address∉(storesOf stage s other).map Prod.fst) →
      memory address=s.memory address) →
    stage thread (s.registers thread) memory=stage thread (s.registers thread) s.memory

/-- A block in which some threads have run a stage as if each had been alone. -/
def ranApart [DecidableEq T] [DecidableEq A] (stage : T → Stage R A K) (ran : List T)
    (s : BlockState T R A K) : BlockState T R A K :=
  ⟨fun thread => if thread∈ran then (stage thread (s.registers thread) s.memory).1
      else s.registers thread,
    storeAll (ran.flatMap (storesOf stage s)) s.memory,
    s.stored++(ran.flatMap (storesOf stage s)).map Prod.fst⟩

variable [DecidableEq T] [DecidableEq A] {stage : T → Stage R A K} {order : List T}
variable {s : BlockState T R A K}

/-- One more thread. -/
theorem ranApart_advance {ran rest : List T} {thread : T} (hn : (ran++thread::rest).Nodup)
    (h : Apart stage (ran++thread::rest) s) :
    (ranApart stage ran s).advance (stage thread) thread=ranApart stage (ran++[thread]) s := by
  have hfresh : thread∉ran := fun hm => (List.nodup_append'.mp hn).2.2 hm List.mem_cons_self
  have hregisters : (ranApart stage ran s).registers thread=s.registers thread := if_neg hfresh
  have hsame : stage thread (s.registers thread) (ranApart stage ran s).memory=
      stage thread (s.registers thread) s.memory := by
    refine h thread (List.mem_append_right _ List.mem_cons_self) _ ?_
    intro address hother
    refine storeAll_other ?_
    intro hm
    obtain ⟨store,hs,rfl⟩ := List.mem_map.mp hm
    obtain ⟨other,ho,hs⟩ := List.mem_flatMap.mp hs
    exact hother other (List.mem_append_left _ ho) (fun he => hfresh (he ▸ ho))
      (List.mem_map_of_mem hs)
  have hstores : (ran++[thread]).flatMap (storesOf stage s)=
      ran.flatMap (storesOf stage s)++(stage thread (s.registers thread) s.memory).2 := by
    rw [List.flatMap_append,List.flatMap_singleton]
    rfl
  unfold BlockState.advance
  rw [hregisters,hsame]
  unfold ranApart
  dsimp only
  rw [hstores,storeAll_append,List.map_append,List.append_assoc]
  congr 1
  funext other
  by_cases he : other=thread
  · rw [he,Function.update_self,if_pos (List.mem_append_right _ List.mem_cons_self)]
  · rw [Function.update_of_ne he]
    by_cases hm : other∈ran
    · rw [if_pos hm,if_pos (List.mem_append_left _ hm)]
    · have hlater : other∉ran++[thread] := by
        intro ho
        rcases List.mem_append.mp ho with ho|ho
        · exact hm ho
        · exact he (List.mem_singleton.mp ho)
      rw [if_neg hm,if_neg hlater]

/-- Threads that stay apart end as if each had run alone. -/
theorem runStage_ran {ran rest : List T} (hn : (ran++rest).Nodup)
    (h : Apart stage (ran++rest) s) :
    runStage stage rest (ranApart stage ran s)=ranApart stage (ran++rest) s := by
  induction rest generalizing ran with
  | nil =>
    rw [List.append_nil]
    rfl
  | cons thread rest ih =>
    have happend : ran++thread::rest=(ran++[thread])++rest := List.append_cons ran thread rest
    change runStage stage rest ((ranApart stage ran s).advance (stage thread) thread)=_
    rw [ranApart_advance hn h,happend]
    rw [happend] at hn h
    exact ih hn h

/-- So does a whole round. -/
theorem runStage_eq (hn : order.Nodup) (h : Apart stage order s) :
    runStage stage order s=ranApart stage order s := by
  have hstart : ranApart stage [] s=s := by
    unfold ranApart
    rw [List.flatMap_nil,List.map_nil,List.append_nil]
    rfl
  have hrun := show runStage stage order (ranApart stage [] s)=ranApart stage ([]++order) s from
    runStage_ran hn h
  rwa [hstart] at hrun

variable (hn : order.Nodup) (h : Apart stage order s)

include hn h

/-- The registers after a round. -/
theorem runStage_registers {thread : T} (hm : thread∈order) :
    (runStage stage order s).registers thread=
      (stage thread (s.registers thread) s.memory).1 := by
  rw [runStage_eq hn h]
  exact if_pos hm

/-- The memory after a round. -/
theorem runStage_memory : (runStage stage order s).memory=
    storeAll (order.flatMap (storesOf stage s)) s.memory := by
  rw [runStage_eq hn h]
  rfl

/-- The addresses stored to after a round. -/
theorem runStage_stored : (runStage stage order s).stored=
    s.stored++(order.flatMap (storesOf stage s)).map Prod.fst := by
  rw [runStage_eq hn h]
  rfl

end Rounds

section Grids

variable {B K : Type}

/-- An output with some places rewritten. -/
def rewriteAt (places : List ℕ) (rewrite : ℕ → K → K) (output : ℕ → K) : ℕ → K :=
  fun place => if place∈places then rewrite place (output place) else output place

variable {rewrite : ℕ → K → K}

/-- Rewriting places one list after another. -/
theorem rewriteAt_append {front back : List ℕ} (h : (front++back).Nodup) (output : ℕ → K) :
    rewriteAt back rewrite (rewriteAt front rewrite output)=
      rewriteAt (front++back) rewrite output := by
  funext place
  unfold rewriteAt
  by_cases hf : place∈front
  · have hb : place∉back := fun hb => (List.nodup_append'.mp h).2.2 hf hb
    rw [if_neg hb,if_pos hf,if_pos (List.mem_append_left _ hf)]
  · by_cases hb : place∈back
    · rw [if_pos hb,if_neg hf,if_pos (List.mem_append_right _ hb)]
    · have hn : place∉front++back := fun hm => (List.mem_append.mp hm).elim hf hb
      rw [if_neg hb,if_neg hf,if_neg hn]

/-- Blocks that each rewrite places of their own. -/
theorem foldlM_blocks {kernel : B → (ℕ → K) → Option ((ℕ → K)×List ℕ)}
    {places : B → List ℕ} {blocks : List B}
    (hkernel : ∀ block∈blocks, ∀ output,
      kernel block output=some (rewriteAt (places block) rewrite output,places block))
    (hn : (blocks.flatMap places).Nodup) (output : ℕ → K) (stored : List ℕ) :
    blocks.foldlM (fun done block =>
      (kernel block done.1).map (fun next => (next.1,done.2++next.2))) (output,stored)=
        some (rewriteAt (blocks.flatMap places) rewrite output,stored++blocks.flatMap places) := by
  induction blocks generalizing output stored with
  | nil =>
    have hnothing : rewriteAt [] rewrite output=output :=
      funext (fun _ => if_neg List.not_mem_nil)
    rw [List.flatMap_nil,List.append_nil,hnothing]
    rfl
  | cons block blocks ih =>
    rw [List.flatMap_cons] at hn ⊢
    rw [List.foldlM_cons,hkernel block List.mem_cons_self]
    refine (ih (fun other hm => hkernel other (List.mem_cons_of_mem _ hm))
      (List.nodup_append'.mp hn).2.1 _ _).trans ?_
    rw [rewriteAt_append hn,List.append_assoc]

/-- Blocks that each return what is their own. -/
theorem mapM_blocks {kernel : B → Option K} {result : B → K} {blocks : List B}
    (hkernel : ∀ block∈blocks, kernel block=some (result block)) :
    blocks.mapM kernel=some (blocks.map result) := by
  induction blocks with
  | nil => rfl
  | cons block blocks ih =>
    rw [List.mapM_cons,hkernel block List.mem_cons_self,
      ih (fun other hm => hkernel other (List.mem_cons_of_mem _ hm))]
    rfl

end Grids

/-- Lists put together are free of repetition when each entry says which list it
comes from. -/
theorem nodup_flatMap_of_owner {α β : Type} {l : List α} {entries : α → List β} (owner : β → α)
    (hl : l.Nodup) (hn : ∀ a∈l, (entries a).Nodup) (howner : ∀ a∈l, ∀ b∈entries a, owner b=a) :
    (l.flatMap entries).Nodup := by
  refine List.nodup_flatMap.mpr ⟨hn,?_⟩
  refine List.Nodup.pairwise_of_forall_ne hl ?_
  intro a ha a' ha' hne
  refine List.disjoint_left.mpr ?_
  intro b hb hb'
  exact hne ((howner a ha b hb).symm.trans (howner a' ha' b hb'))

end CudaForge.BarrierPrograms
