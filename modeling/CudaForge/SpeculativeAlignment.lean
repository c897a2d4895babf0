import CudaForge.SpeculativeDecoding

/-!
# Alignment of the caches with the context

A history model keeps the tokens it has ingested as its cache and answers
with a row for each prefix. As long as its cache is a proper prefix of the
context, the last rows of the target pass are those of the context and of
the context followed by the proposals, and rolling back leaves a proper
prefix of the new context.
-/

namespace CudaForge.SpeculativeAlignment

open PythonBuiltins GenerationSettings SpeculativeDecoding

variable {σ γ τ κ Row Token : Type}

/-- The rows for tokens added after a history: one for each longer prefix. -/
def historyRows (row : List Token → Row) : List Token → List Token → List Row
  | _,[] => []
  | before,token::added => row (before++[token])::historyRows row (before++[token]) added

theorem historyRows_length (row : List Token → Row) (added : List Token) :
    ∀ before, (historyRows row before added).length=added.length := by
  induction added with
  | nil => intro before; rfl
  | cons token added ih =>
    intro before
    rw [historyRows,List.length_cons,List.length_cons,ih]

/-- Rows of a concatenation. -/
theorem historyRows_append (row : List Token → Row) (first : List Token) :
    ∀ before second, historyRows row before (first++second)=
      historyRows row before first++historyRows row (before++first) second := by
  induction first with
  | nil =>
    intro before second
    rw [List.nil_append,historyRows,List.nil_append,List.append_nil]
  | cons token first ih =>
    intro before second
    rw [List.cons_append,historyRows,historyRows,ih,List.cons_append,List.append_assoc,
      List.singleton_append]

/-- The model whose next row is any function of the whole history, behind a
cache that is appended to and cropped. -/
def historyModel (row : List Token → Row) : Model Unit (List Token) Token Row where
  call _ cache added :=
    (historyRows row (cache.getD []) added,some (cache.getD []++added),())
  crop held excess := held.take (held.length-excess)
  rows_length _ cache added := historyRows_length row added (cache.getD [])

/-- Rows after each token of a list: the last one is that of the whole. -/
theorem historyRows_getLast (row : List Token → Row) {before added : List Token}
    (ha : added≠[]) : (historyRows row before added).getLast?=some (row (before++added)) := by
  obtain ⟨first,last,rfl⟩ : ∃ first last, added=first++[last] :=
    ⟨added.dropLast,added.getLast ha,(List.dropLast_append_getLast ha).symm⟩
  rw [historyRows_append,historyRows,historyRows,List.getLast?_append,List.getLast?_singleton,
    List.append_assoc]
  rfl

/-- The rows a target pass is judged by: that of the context, then one for
each proposal. -/
def verdictRows (row : List Token → Row) (context proposals : List Token) : List Row :=
  row context::historyRows row context proposals

/-- The last rows of a pass over pending tokens and proposals are the
verdict, whatever part of the context was ingested before. -/
theorem verdict_eq (row : List Token → Row) (ingested : List Token)
    {pending proposals : List Token} {span : ℕ} (hp : pending≠[]) (hs : proposals.length=span) :
    (historyRows row ingested (pending++proposals)).drop
      ((historyRows row ingested (pending++proposals)).length-(span+1))=
      verdictRows row (ingested++pending) proposals := by
  obtain ⟨first,last,rfl⟩ : ∃ first last, pending=first++[last] :=
    ⟨pending.dropLast,pending.getLast hp,(List.dropLast_append_getLast hp).symm⟩
  have he : historyRows row ingested (first++[last]++proposals)=
      historyRows row ingested first++verdictRows row (ingested++(first++[last])) proposals := by
    rw [List.append_assoc,historyRows_append,List.singleton_append,historyRows,verdictRows,
      List.append_assoc]
  have hl : (verdictRows row (ingested++(first++[last])) proposals).length=span+1 := by
    rw [verdictRows,List.length_cons,historyRows_length,hs]
  rw [he,List.length_append,hl,Nat.add_sub_cancel,List.drop_left]

/-- A cache that holds the first `ingested` tokens of the context, some token
still being pending. -/
structure Aligned (context : List Token) (ingested : ℕ) (cache : Option (List Token)) :
    Prop where
  held_eq : cache.getD []=context.take ingested
  pending_pos : ingested<context.length

namespace Aligned

variable {context : List Token} {ingested : ℕ} {cache : Option (List Token)}

/-- Some token is pending. -/
theorem pending_ne (h : Aligned context ingested cache) : context.drop ingested≠[] := by
  intro he
  have hl := congrArg List.length he
  rw [List.length_drop,List.length_nil] at hl
  have hp := h.pending_pos
  omega

/-- A call with the pending tokens and more completes the context. -/
theorem call_eq (h : Aligned context ingested cache) (row : List Token → Row) (state : Unit)
    (more : List Token) :
    (historyModel row).call state cache (context.drop ingested++more)=
      (historyRows row (context.take ingested) (context.drop ingested++more),
        some (context++more),()) := by
  simp only [historyModel,h.held_eq]
  rw [←List.append_assoc,List.take_append_drop]

/-- The rows a target call is judged by. -/
theorem call_verdict (h : Aligned context ingested cache) (row : List Token → Row)
    (state : Unit) {proposals : List Token} {span : ℕ} (hs : proposals.length=span) :
    ((historyModel row).call state cache (context.drop ingested++proposals)).1.drop
      (((historyModel row).call state cache (context.drop ingested++proposals)).1.length-(span+1))=
      verdictRows row context proposals := by
  rw [h.call_eq row state proposals]
  have hv := verdict_eq row (context.take ingested) h.pending_ne hs
  rwa [List.take_append_drop] at hv

end Aligned

variable {M : Type → Type} [Monad M] [MonadExceptOf PyError M]

/-- Rolling back a history model's cache keeps the wanted prefix, and never
raises. -/
theorem crop_history (row : List Token → Row) {held : List Token} {current wanted : ℕ}
    (hl : held.length=current) :
    cropCache (historyModel row) (some held) current wanted=
      (pure (some (held.take wanted)) : M (Option (List Token))) := by
  rw [cropCache]
  by_cases hw : wanted<current
  · rw [if_pos hw]
    simp only [historyModel,hl]
    rw [Nat.sub_sub_self hw.le]
  · rw [if_neg hw,List.take_of_length_le (by omega)]

/-- A rolled-back cache is a proper prefix of the context that settled the
kept proposals and their successor. -/
theorem aligned_settled {context proposals : List Token} {taken span ingested : ℕ}
    (replacement : Token) (hs : proposals.length=span) (ht : taken ≤ span)
    (hi : ingested≤context.length+taken) :
    Aligned (context++(proposals.take taken++[replacement])) ingested
      (some ((context++proposals).take ingested)) := by
  have hl : (proposals.take taken).length=taken := by rw [List.length_take,hs]; omega
  constructor
  · have hk : (context++proposals).take (context.length+taken)=
        context++proposals.take taken := List.take_length_add_append taken
    have hc : (context++proposals.take taken).length=context.length+taken := by
      rw [List.length_append,hl]
    have hr : (context++proposals.take taken++[replacement]).take ingested=
        (context++proposals.take taken).take ingested :=
      List.take_append_of_le_length (by omega)
    rw [Option.getD_some,←List.append_assoc,hr,←hk,List.take_take,Nat.min_eq_left hi]
  · rw [List.length_append,List.length_append,List.length_singleton,hl]
    omega

end CudaForge.SpeculativeAlignment
