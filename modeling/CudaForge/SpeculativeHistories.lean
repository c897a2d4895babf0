import CudaForge.SpeculativeGreedy
import CudaForge.SpeculativeRequests

/-!
# Every request of a speculative decoder

A request is sound when the tokens a model holds and the tokens it is passed
are the settled context followed by the proposals made so far, and when a
crop drops some tokens that are there. The decoder makes only sound requests,
whatever the models answer and however the draws fall. Where both models are
known to answer from one table the same argument also follows the verdicts:
every proposal is accepted.
-/

namespace CudaForge.SpeculativeHistories

open SpeculativeDecoding hiding propose decodeBlock decodeLoop
open PythonBuiltins GenerationSettings SpeculativeAlignment ExceptionState LoggedPrograms
  SpeculativeGreedy SpeculativeRequests

variable {P : Type} [Field P] [LinearOrder P]
variable {ω Token Row : Type} [DecidableEq Token] [Fintype Token]

/-- How many tokens the draft proposes behind a context. -/
def spanOf (lookahead limit : ℕ) (context : List Token) : ℕ :=
  min lookahead (limit-context.length)

/-- The proposals of a block are an initial segment at a draft call and all
of them at the target call. -/
def Reached (span : ℕ) (proposals : List Token) : Side → Prop
  | .draft => proposals.length<span
  | .target => proposals.length=span

/-- A request that keeps its model in step with the decoder. -/
def Sound (prompt : List Token) (lookahead limit : ℕ) : Request Token → Prop
  | .call side held inputIds context proposals =>
    prompt<+:context ∧ held++inputIds=context++proposals ∧
      Reached (spanOf lookahead limit context) proposals side ∧
      (inputIds=[] → side=.draft ∧ context=[] ∧ proposals=[])
  | .crop _ held excess => 0<excess ∧ excess≤held.length

/-- Draws that keep to the distribution: a token of some probability, and no
uniform draw that reaches one. -/
structure ProperDraws (sampling : Sampling (EStateM PyError ω) P Row Token)
    (generation : GenerationConfig) : Prop where
  multinomial : ∀ logits w, ∃ token w',
    sampling.multinomial (sampling.distribution logits generation) w=.ok token w' ∧
      0<sampling.distribution logits generation token
  randBelow : ∀ w, ∃ w', sampling.randBelow 1 w=.ok true w'

/-- What is known of the models and of the draws: nothing, or the table both
models answer from. Only where nothing is known may a run raise. -/
structure Known (models : Models ω Token Row)
    (sampling : Sampling (EStateM PyError ω) P Row Token) (generation : GenerationConfig)
    (greedy : Bool) (known : Option (List Token → Row)) : Prop where
  answer : ∀ row, known=some row → models.Tabulated fun _ => row
  draws : known≠none → greedy=true ∨ ProperDraws sampling generation

/-- A token offered for a row: the most likely one, or one of some
probability. -/
def Offered (sampling : Sampling (EStateM PyError ω) P Row Token)
    (generation : GenerationConfig) (greedy : Bool) (logits : Row) (drawn : Token×(Token → P)) :
    Prop :=
  if greedy then drawn.1=sampling.argmax logits
  else drawn.2=sampling.distribution logits generation ∧ 0<drawn.2 drawn.1

/-- Proposals that were each offered for the row of the history before it. -/
def Offers (sampling : Sampling (EStateM PyError ω) P Row Token) (generation : GenerationConfig)
    (greedy : Bool) (row : List Token → Row) :
    List Token → List Token → List (Token → P) → Prop
  | _,[],[] => True
  | history,proposed::proposals,draft::distributions =>
    Offered sampling generation greedy (row history) (proposed,draft) ∧
      Offers sampling generation greedy row (history++[proposed]) proposals distributions
  | _,_,_ => False

section Draft

variable {models : Models ω Token Row} {sampling : Sampling (EStateM PyError ω) P Row Token}
variable {generation : GenerationConfig} {greedy : Bool} {known : Option (List Token → Row)}
variable {good : Request Token → Prop}

omit [DecidableEq Token] [Fintype Token] in
/-- One more offer. -/
theorem Offers.snoc {row : List Token → Row} {proposals : List Token} :
    ∀ {history : List Token} {distributions : List (Token → P)} {drawn : Token×(Token → P)},
      Offers sampling generation greedy row history proposals distributions →
      Offered sampling generation greedy (row (history++proposals)) drawn →
      Offers sampling generation greedy row history (proposals++[drawn.1])
        (distributions++[drawn.2]) := by
  induction proposals with
  | nil =>
    intro history distributions drawn h hd
    cases distributions with
    | nil =>
      rw [List.append_nil] at hd
      exact ⟨hd,trivial⟩
    | cons draft distributions => exact h.elim
  | cons proposed proposals ih =>
    intro history distributions drawn h hd
    cases distributions with
    | nil => exact h.elim
    | cons draft distributions =>
      refine ⟨h.1,ih h.2 ?_⟩
      rwa [List.append_assoc,List.singleton_append]

omit [DecidableEq Token] [Fintype Token] in
/-- What a model answers: the table's rows, where there is a table. -/
theorem Known.ends (hk : Known models sampling generation greedy known) (side : Side)
    (held inputIds : List Token) (w : ω) :
    Ends (models.answer side held inputIds) w
      (fun rows _ => ∀ row, known=some row → rows=historyRows row held inputIds)
      (fun _ => known=none) := by
  cases hn : known with
  | none =>
    unfold Ends
    cases models.answer side held inputIds w with
    | ok rows t =>
      intro row hr
      exact absurd hr (by simp only [reduceCtorEq,not_false_eq_true])
    | error e t => rfl
  | some table =>
    rw [hk.answer table hn side held inputIds,ends_pure]
    intro row hr
    rw [Option.some.inj hr]

omit [DecidableEq Token] [Fintype Token] in
/-- A call is logged, and afterwards the cache holds the input too. -/
theorem logs_callModel (hk : Known models sampling generation greedy known) {side : Side}
    {context proposals inputIds : List Token} {cache : Option (List Token)}
    (hg : good (.call side (cache.getD []) inputIds context proposals)) :
    Logs good (known=none) (callModel models side context proposals cache inputIds)
      (fun output => output.2=cache.getD []++inputIds ∧
        ∀ row, known=some row → output.1=historyRows row (cache.getD []) inputIds) := by
  refine (logs_record hg).bind fun _ _ => ?_
  refine (logs_outside (hk.ends side (cache.getD []) inputIds)).bind fun rows hr => ?_
  exact logs_pure ⟨rfl,hr⟩

omit [DecidableEq Token] [Fintype Token] in
/-- A draw from a row's distribution finds a token of some probability. -/
theorem logs_multinomial (hk : Known models sampling generation false known) (logits : Row) :
    Logs good (known=none)
      (outside (sampling.multinomial (sampling.distribution logits generation)) :
        Requesting ω Token Token)
      (fun token => known≠none → 0<sampling.distribution logits generation token) := by
  apply logs_outside
  intro w
  unfold Ends
  by_cases hn : known=none
  · cases sampling.multinomial (sampling.distribution logits generation) w with
    | ok token t =>
      intro h
      exact absurd hn h
    | error e t => exact hn
  · rcases hk.draws hn with hg | hp
    · exact absurd hg Bool.false_ne_true
    · obtain ⟨token,t,ht,hpos⟩ := hp.multinomial logits w
      rw [ht]
      intro _
      exact hpos

omit [Fintype Token] in
/-- The token drawn from a row is one offered for it. -/
theorem logs_proposeToken (hk : Known models sampling generation greedy known) (logits : Row) :
    Logs good (known=none) (proposeToken (logSampling sampling) generation greedy logits)
      (fun drawn => known≠none → Offered sampling generation greedy logits drawn) := by
  cases greedy with
  | true =>
    rw [proposeToken,if_pos rfl]
    apply logs_pure
    intro _
    rw [Offered,if_pos rfl]
    rfl
  | false =>
    rw [proposeToken,if_neg Bool.false_ne_true]
    refine (logs_multinomial hk logits).bind fun token ht => ?_
    apply logs_pure
    intro hn
    rw [Offered,if_neg Bool.false_ne_true]
    exact ⟨rfl,ht hn⟩

omit [Fintype Token] in
/-- One step of the draft makes one sound call; the cache then holds the
context and the proposals before the one it draws. -/
theorem logs_draftStep (hk : Known models sampling generation greedy known)
    {context proposals stepInput : List Token} {cache : Option (List Token)}
    (hg : good (.call .draft (cache.getD []) stepInput context proposals))
    (ha : cache.getD []++stepInput=context++proposals) (hi : known≠none → stepInput≠[]) :
    Logs good (known=none)
      (draftStep models sampling generation greedy context proposals cache stepInput)
      (fun step => step.2=context++proposals ∧ ∀ row, known=some row →
        Offered sampling generation greedy (row (context++proposals)) step.1) := by
  refine (logs_callModel hk hg).bind fun output ho => ?_
  cases hl : output.1.getLast? with
  | none =>
    apply logs_throw
    by_contra hn
    obtain ⟨row,hr⟩ := Option.ne_none_iff_exists'.mp hn
    rw [ho.2 row hr,historyRows_getLast row (hi hn)] at hl
    exact absurd hl (Option.some_ne_none _)
  | some logits =>
    refine (logs_proposeToken hk logits).bind fun drawn hd => ?_
    apply logs_pure
    refine ⟨by rw [ho.1,ha],?_⟩
    intro row hr
    have hn : known≠none := by
      rw [hr]
      exact Option.some_ne_none row
    have he : logits=row (context++proposals) := by
      rw [ho.2 row hr,historyRows_getLast row (hi hn),ha] at hl
      exact (Option.some.inj hl).symm
    rw [←he]
    exact hd hn

/-- What a round of proposals hands back. -/
structure Drafted (sampling : Sampling (EStateM PyError ω) P Row Token)
    (generation : GenerationConfig) (greedy : Bool) (known : Option (List Token → Row))
    (context : List Token) (span : ℕ) (stats : SpeculativeStats)
    (p : Proposed Unit (List Token) P Token) : Prop where
  length_eq : p.proposals.length=span
  cache_eq : p.cache=some (context++p.proposals.dropLast)
  offers : ∀ row, known=some row →
    Offers sampling generation greedy row context p.proposals p.distributions
  proposed_eq : p.stats.proposed=stats.proposed
  accepted_eq : p.stats.accepted=stats.accepted

omit [Fintype Token] in
/-- A round of proposals makes sound calls only, and leaves all but the last
proposal in the draft's cache. -/
theorem logs_propose (hk : Known models sampling generation greedy known) {lookahead limit : ℕ}
    {prompt context : List Token} (hp : prompt<+:context) (hne : known≠none → prompt≠[])
    (n : ℕ) : ∀ (cache : Option (List Token)) (stepInput proposals : List Token)
      (distributions : List (Token → P)) (stats : SpeculativeStats),
      cache.getD []++stepInput=context++proposals →
      (stepInput=[] → context=[] ∧ proposals=[]) →
      proposals.length+n=spanOf lookahead limit context →
      (n=0 → cache=some (context++proposals.dropLast)) →
      (∀ row, known=some row → Offers sampling generation greedy row context proposals
        distributions) →
      Logs (Sound prompt lookahead limit) (known=none)
        (propose models sampling generation greedy context n cache stepInput proposals
          distributions stats)
        (Drafted sampling generation greedy known context (spanOf lookahead limit context)
          stats) := by
  induction n with
  | zero =>
    intro cache stepInput proposals distributions stats _ _ hl hc ho
    rw [propose]
    exact logs_pure ⟨hl,hc rfl,ho,rfl,rfl⟩
  | succ n ih =>
    intro cache stepInput proposals distributions stats ha hi hl _ ho
    rw [propose]
    have hg : Sound prompt lookahead limit
        (.call .draft (cache.getD []) stepInput context proposals) := by
      refine ⟨hp,ha,?_,?_⟩
      · rw [Reached]
        omega
      · intro he
        exact ⟨rfl,hi he⟩
    have hin : known≠none → stepInput≠[] := by
      intro hn he
      have hc := (hi he).1
      rw [hc] at hp
      exact hne hn (List.prefix_nil.mp hp)
    refine (logs_draftStep hk hg ha hin).bind fun step hs => ?_
    refine (ih (some step.2) [step.1.1] (proposals++[step.1.1]) (distributions++[step.1.2])
      {stats with draftCalls := stats.draftCalls+1} ?_ ?_ ?_ ?_ ?_).mono ?_
    · rw [Option.getD_some,hs.1,List.append_assoc]
    · intro he
      exact absurd he (List.cons_ne_nil _ _)
    · rw [List.length_append,List.length_singleton]
      omega
    · intro _
      rw [hs.1,List.dropLast_concat]
    · intro row hr
      exact (ho row hr).snoc (hs.2 row hr)
    · intro p hd
      exact ⟨hd.length_eq,hd.cache_eq,hd.offers,hd.proposed_eq,hd.accepted_eq⟩

end Draft

section Verdict

variable {models : Models ω Token Row} {sampling : Sampling (EStateM PyError ω) P Row Token}
variable {generation : GenerationConfig} {greedy : Bool} {known : Option (List Token → Row)}
variable {good : Request Token → Prop}

omit [DecidableEq Token] [Fintype Token] in
/-- The bonus token costs at most a draw from a row. -/
theorem logs_bonusToken (hk : Known models sampling generation greedy known) (bonus : Row) :
    Logs good (known=none)
      (bonusToken (logSampling sampling) generation greedy bonus : Requesting ω Token Token)
      (fun _ => True) := by
  cases greedy with
  | true =>
    rw [bonusToken,if_pos rfl]
    exact logs_pure trivial
  | false =>
    rw [bonusToken,if_neg Bool.false_ne_true]
    exact (logs_multinomial hk bonus).mono fun _ _ => trivial

omit [DecidableEq Token] [Fintype Token] in
/-- A proposal offered for the target's own row passes the acceptance
test. -/
theorem logs_accepts (hk : Known models sampling generation false known) (logits : Row)
    (draft : Token → P) (proposed : Token)
    (ho : known≠none → Offered sampling generation false logits (proposed,draft)) :
    Logs good (known=none)
      (accepts (logSampling sampling) (sampling.distribution logits generation) draft proposed)
      (fun accepted => known≠none → accepted=true) := by
  by_cases hn : known=none
  · apply logs_answer _ hn
    intro accepted h
    exact absurd hn h
  · have hd := ho hn
    rw [Offered,if_neg Bool.false_ne_true] at hd
    have hone : min (sampling.distribution logits generation proposed/draft proposed) 1=
        (1 : P) := by
      have hde : draft=sampling.distribution logits generation := hd.1
      have hpos : 0<draft proposed := hd.2
      rw [←hde,div_self hpos.ne',min_self]
    rcases hk.draws hn with hg | hp
    · exact absurd hg Bool.false_ne_true
    · have hb : (accepts (logSampling sampling) (sampling.distribution logits generation) draft
          proposed : Requesting ω Token Bool)=outside (sampling.randBelow 1) := by
        rw [accepts,hone]
        rfl
      rw [hb]
      apply logs_outside
      intro w
      obtain ⟨w',hw⟩ := hp.randBelow w
      unfold Ends
      rw [hw]
      intro _
      rfl

omit [DecidableEq Token] in
/-- A resampled token, where a rejection can happen at all. -/
theorem logs_resample (hn : known=none) (target draft : Token → P) :
    Logs good (known=none) (resample (logSampling sampling) target draft)
      (fun _ => True) := by
  by_cases ht : 0<∑ x, max (target x-draft x) 0
  · simp only [resample,if_pos ht]
    exact logs_answer _ hn fun _ => trivial
  · simp only [resample,if_neg ht]
    exact logs_throw hn

/-- The verdict keeps no more than was proposed, and everything that was
offered for the rows it is judged by. -/
theorem logs_verify (hk : Known models sampling generation greedy known)
    (proposals : List Token) :
    ∀ (context : List Token) (verdict : List Row) (distributions : List (Token → P)),
      (∀ row, known=some row → verdict=verdictRows row context proposals ∧
        Offers sampling generation greedy row context proposals distributions) →
      Logs good (known=none)
        (verify (logSampling sampling) generation greedy proposals verdict distributions)
        (fun verified => verified.1≤proposals.length ∧
          (known≠none → verified.1=proposals.length)) := by
  induction proposals with
  | nil =>
    intro context verdict distributions h
    cases verdict with
    | nil =>
      rw [verify]
      apply logs_throw
      by_contra hn
      obtain ⟨row,hr⟩ := Option.ne_none_iff_exists'.mp hn
      exact absurd (h row hr).1 (List.cons_ne_nil _ _).symm
    | cons bonus verdict =>
      rw [verify]
      refine (logs_bonusToken hk bonus).bind fun token _ => ?_
      apply logs_pure
      refine ⟨Nat.le_refl 0,?_⟩
      intro _
      rfl
  | cons proposed proposals ih =>
    intro context verdict distributions h
    cases verdict with
    | nil =>
      rw [verify]
      apply logs_throw
      by_contra hn
      obtain ⟨row,hr⟩ := Option.ne_none_iff_exists'.mp hn
      exact absurd (h row hr).1 (List.cons_ne_nil _ _).symm
    | cons logits verdict =>
      -- what is known of the rest, and of the first row
      have hlater : ∀ row, known=some row →
          verdict=verdictRows row (context++[proposed]) proposals ∧ Offers sampling generation
            greedy row (context++[proposed]) proposals distributions.tail := by
        intro row hr
        obtain ⟨hv,ho⟩ := h row hr
        refine ⟨(List.cons.inj hv).2,?_⟩
        cases distributions with
        | nil => exact ho.elim
        | cons draft distributions => exact ho.2
      have hcount : ∀ later : ℕ×Token, (later.1≤proposals.length ∧
          (known≠none → later.1=proposals.length)) →
          later.1+1≤(proposed::proposals).length ∧
            (known≠none → later.1+1=(proposed::proposals).length) := by
        intro later hl
        rw [List.length_cons]
        refine ⟨Nat.succ_le_succ hl.1,?_⟩
        intro hn
        rw [hl.2 hn]
      have hoffer : known≠none → ∀ draft ∈ distributions.head?,
          Offered sampling generation greedy logits (proposed,draft) := by
        intro hn draft hd
        obtain ⟨row,hr⟩ := Option.ne_none_iff_exists'.mp hn
        obtain ⟨hv,ho⟩ := h row hr
        cases distributions with
        | nil => exact absurd hd (by simp only [List.head?_nil,Option.mem_def,reduceCtorEq,
            not_false_eq_true])
        | cons first distributions =>
          rw [(List.cons.inj hv).1,←Option.some.inj hd]
          exact ho.1
      cases greedy with
      | true =>
        rw [verify_greedy_cons]
        by_cases ha : (logSampling sampling : Sampling (Requesting ω Token) P Row Token).argmax
            logits=proposed
        · rw [if_pos ha]
          refine (ih _ _ _ hlater).bind fun later hl => ?_
          exact logs_pure (hcount later hl)
        · rw [if_neg ha]
          apply logs_pure
          refine ⟨Nat.zero_le _,?_⟩
          intro hn
          obtain ⟨row,hr⟩ := Option.ne_none_iff_exists'.mp hn
          cases distributions with
          | nil => exact (h row hr).2.elim
          | cons draft distributions =>
            have ho := hoffer hn draft rfl
            rw [Offered,if_pos rfl] at ho
            exact absurd ho.symm ha
      | false =>
        cases distributions with
        | nil =>
          rw [verify,if_neg Bool.false_ne_true]
          apply logs_throw
          by_contra hn
          obtain ⟨row,hr⟩ := Option.ne_none_iff_exists'.mp hn
          exact (h row hr).2
        | cons draft distributions =>
          rw [verify,if_neg Bool.false_ne_true]
          have ho : known≠none → Offered sampling generation false logits (proposed,draft) := by
            intro hn
            exact hoffer hn draft rfl
          refine (logs_accepts hk logits draft proposed ho).bind fun accepted hac => ?_
          cases accepted with
          | true =>
            refine (ih _ _ _ hlater).bind fun later hl => ?_
            exact logs_pure (hcount later hl)
          | false =>
            have hn : known=none := by
              by_contra hn
              exact Bool.false_ne_true (hac hn)
            refine (logs_resample hn _ draft).bind fun token _ => ?_
            apply logs_pure
            refine ⟨Nat.zero_le _,?_⟩
            intro h
            exact absurd hn h

end Verdict

section Run

variable {models : Models ω Token Row} {sampling : Sampling (EStateM PyError ω) P Row Token}
variable {generation : GenerationConfig} {greedy : Bool} {known : Option (List Token → Row)}
variable {prompt : List Token} {lookahead limit : ℕ}

omit [DecidableEq Token] [Fintype Token] in
/-- A crop is asked for only when it drops some of the tokens held. -/
theorem logs_crop {raises : Prop} (side : Side) {held : List Token} {current wanted : ℕ}
    (hl : held.length=current) :
    Logs (Sound prompt lookahead limit) raises
      (crop side (some held) current wanted : Requesting ω Token (Option (List Token)))
      (fun cache => cache=some (held.take wanted)) := by
  rw [crop]
  by_cases hw : wanted<current
  · rw [if_pos hw]
    have hg : Sound prompt lookahead limit (.crop side held (current-wanted)) :=
      ⟨Nat.sub_pos_of_lt hw,by rw [hl]; exact Nat.sub_le current wanted⟩
    refine (logs_record hg).bind fun _ _ => ?_
    apply logs_pure
    rw [hl,Nat.sub_sub_self hw.le]
  · rw [if_neg hw]
    apply logs_pure
    rw [List.take_of_length_le (by omega)]

/-- A cache that holds the first `ingested` tokens of the context; some token
is pending unless there is no context at all. -/
structure Behind (context : List Token) (ingested : ℕ) (cache : Option (List Token)) :
    Prop where
  held_eq : cache.getD []=context.take ingested
  pending : context.drop ingested=[] → context=[]

omit [DecidableEq Token] [Fintype Token] in
/-- The pending tokens complete what the cache holds. -/
theorem Behind.complete {context : List Token} {ingested : ℕ} {cache : Option (List Token)}
    (h : Behind context ingested cache) (more : List Token) :
    cache.getD []++(context.drop ingested++more)=context++more := by
  rw [h.held_eq,←List.append_assoc,List.take_append_drop]

omit [DecidableEq Token] [Fintype Token] in
/-- An aligned cache is behind its context. -/
theorem behind_of_aligned {context : List Token} {ingested : ℕ} {cache : Option (List Token)}
    (h : Aligned context ingested cache) : Behind context ingested cache :=
  ⟨h.held_eq,fun he => absurd he h.pending_ne⟩

/-- What the loop's variables satisfy between two blocks. -/
structure Ready (prompt : List Token) (s : Variables Token) : Prop where
  grown : prompt<+:s.context
  target : Behind s.context s.targetIngested s.targetCache
  draft : Behind s.context s.draftIngested s.draftCache

/-- What one block hands to the loop: both caches rolled back to a part of
the context and the proposals kept. -/
structure Rolled (known : Option (List Token → Row)) (s : Variables Token) (span : ℕ)
    (b : Block Unit (List Token) Unit (List Token) Token) : Prop where
  length_eq : b.proposals.length=span
  taken_le : b.taken≤ span
  taken_eq : known≠none → b.taken=span
  target_eq : b.targetCache=some ((s.context++b.proposals).take (s.context.length+b.taken))
  ingested_le : b.draftIngested≤ s.context.length+b.taken
  draft_eq : b.draftCache=some ((s.context++b.proposals).take b.draftIngested)
  proposed_eq : b.stats.proposed=s.stats.proposed
  accepted_eq : b.stats.accepted=s.stats.accepted

omit [DecidableEq Token] [Fintype Token] in
/-- The rows the target is judged by, when its table is known. -/
theorem Behind.verdict {context : List Token} {ingested : ℕ} {cache : Option (List Token)}
    (h : Behind context ingested cache) (hc : context≠[]) (row : List Token → Row)
    {proposals : List Token} {span : ℕ} (hl : proposals.length=span) {rows : List Row}
    (hr : rows=historyRows row (cache.getD []) (context.drop ingested++proposals)) :
    rows.drop (rows.length-(span+1))=verdictRows row context proposals := by
  have hp : context.drop ingested≠[] := by
    intro he
    exact hc (h.pending he)
  rw [hr,h.held_eq,verdict_eq row (context.take ingested) hp hl,List.take_append_drop]

omit [DecidableEq Token] [Fintype Token] in
/-- The draft's cache after a round, as a part of the context and all
proposals. -/
theorem dropLast_part (context : List Token) {proposals : List Token} {n m : ℕ}
    (hm : m≤context.length+proposals.length-1) (hn : proposals.length=n+1) :
    (context++proposals.dropLast).take m=(context++proposals).take m := by
  have ht : (context++proposals).take (context.length+n)=context++proposals.dropLast := by
    rw [List.take_length_add_append,List.dropLast_eq_take,hn,Nat.add_sub_cancel]
  rw [←ht,List.take_take,Nat.min_eq_left (by omega)]

omit [DecidableEq Token] [Fintype Token] in
/-- Rolling the draft back crops what its cache really holds. -/
theorem logs_rollback {raises : Prop} (context : List Token) {proposals : List Token}
    {span taken : ℕ} (hl : proposals.length=span) (hpos : 0<span) (ingested : ℕ) :
    Logs (Sound prompt lookahead limit) raises
      (rollback (some (context++proposals.dropLast)) ingested (context.length+span-1)
        (context.length+taken) : Requesting ω Token (ℕ×Option (List Token)))
      (fun rolled => rolled.1≤context.length+taken ∧
        rolled.2=some ((context++proposals).take rolled.1)) := by
  have hc : (context++proposals.dropLast).length=context.length+span-1 := by
    rw [List.length_append,List.length_dropLast,hl]
    omega
  refine (logs_crop .draft hc).bind fun cropped hcr => ?_
  apply logs_pure
  refine ⟨Nat.min_le_right _ _,?_⟩
  rw [hcr]
  refine congrArg some (dropLast_part context ?_ (n := span-1) (by omega))
  rw [hl]
  exact Nat.min_le_left _ _

/-- A block makes sound requests only. -/
theorem logs_decodeBlock (hk : Known models sampling generation greedy known)
    (hne : known≠none → prompt≠[]) {s : Variables Token} (hs : Ready prompt s)
    {span : ℕ} (hspan : span=spanOf lookahead limit s.context) (hpos : 0<span) :
    Logs (Sound prompt lookahead limit) (known=none)
      (decodeBlock models sampling generation greedy span s) (Rolled known s span) := by
  have hd : Logs (Sound prompt lookahead limit) (known=none)
      (propose models sampling generation greedy s.context span s.draftCache
        (s.context.drop s.draftIngested) [] [] s.stats)
      (Drafted sampling generation greedy known s.context
        (spanOf lookahead limit s.context) s.stats) := by
    apply logs_propose hk hs.grown hne
    · have hc := hs.draft.complete []
      rwa [List.append_nil] at hc
    · intro he
      exact ⟨hs.draft.pending he,rfl⟩
    · rw [List.length_nil,Nat.zero_add,hspan]
    · intro h0
      omega
    · intro row _
      trivial
  rw [←hspan] at hd
  refine hd.bind fun proposed hp => ?_
  have hg : Sound prompt lookahead limit (.call .target (s.targetCache.getD [])
      (s.context.drop s.targetIngested++proposed.proposals) s.context proposed.proposals) := by
    refine ⟨hs.grown,hs.target.complete proposed.proposals,?_,?_⟩
    · rw [Reached,hp.length_eq,hspan]
    · intro he
      have hl := congrArg List.length he
      rw [List.length_append,hp.length_eq,List.length_nil] at hl
      omega
  refine (logs_callModel hk hg).bind fun output ho => ?_
  rw [hs.target.complete] at ho
  have hv : ∀ row, known=some row →
      output.1.drop (output.1.length-(span+1))=verdictRows row s.context proposed.proposals ∧
      Offers sampling generation greedy row s.context proposed.proposals
        proposed.distributions := by
    intro row hr
    have hc : s.context≠[] := by
      intro hc
      refine hne (by rw [hr]; exact Option.some_ne_none row) (List.prefix_nil.mp ?_)
      rw [←hc]
      exact hs.grown
    exact ⟨hs.target.verdict hc row hp.length_eq (ho.2 row hr),hp.offers row hr⟩
  refine (logs_verify hk proposed.proposals s.context _ proposed.distributions hv).bind
    fun verified ht => ?_
  rw [hp.length_eq] at ht
  have hl : output.2.length=s.context.length+span := by
    rw [ho.1,List.length_append,hp.length_eq]
  refine (logs_crop .target hl).bind fun targetCache hc => ?_
  rw [hp.cache_eq]
  refine (logs_rollback s.context hp.length_eq hpos s.draftIngested).bind fun rolled hr => ?_
  apply logs_pure
  exact ⟨hp.length_eq,ht.1,ht.2,by rw [hc,ho.1],hr.1,hr.2,hp.proposed_eq,hp.accepted_eq⟩

omit [DecidableEq Token] [Fintype Token] in
/-- The variables are ready again after a block that the budget does not
clip. -/
theorem Rolled.ready {s : Variables Token} (hs : Ready prompt s) {span remaining : ℕ}
    {b : Block Unit (List Token) Unit (List Token) Token} (hb : Rolled known s span b)
    (hclip : b.taken+1≤remaining) : Ready prompt (settle s span remaining b) := by
  have hset : b.settled remaining=b.proposals.take b.taken++[b.replacement] := by
    rw [Block.settled,List.take_of_length_le]
    rw [List.length_append,List.length_take,List.length_singleton]
    omega
  have hctx : (settle s span remaining b).context=
      s.context++(b.proposals.take b.taken++[b.replacement]) := by
    rw [settle,hset]
  constructor
  · rw [hctx]
    exact hs.grown.trans (List.prefix_append _ _)
  · rw [hctx]
    apply behind_of_aligned
    rw [settle,hb.target_eq]
    exact aligned_settled b.replacement hb.length_eq hb.taken_le (Nat.le_refl _)
  · rw [hctx]
    apply behind_of_aligned
    rw [settle,hb.draft_eq]
    exact aligned_settled b.replacement hb.length_eq hb.taken_le hb.ingested_le

omit [DecidableEq Token] [Fintype Token] in
/-- A block that keeps every proposal keeps the counts of both equal. -/
theorem Rolled.accepted {s : Variables Token} {span : ℕ}
    {b : Block Unit (List Token) Unit (List Token) Token} (hb : Rolled known s span b)
    (remaining : ℕ) (ha : known≠none → s.stats.accepted=s.stats.proposed) (hn : known≠none) :
    (settle s span remaining b).stats.accepted=(settle s span remaining b).stats.proposed := by
  have he : b.stats.accepted+b.taken=b.stats.proposed+span := by
    rw [hb.accepted_eq,hb.proposed_eq,hb.taken_eq hn,ha hn]
  exact he

/-- A whole run makes sound requests only, by induction on the budget left.
A block that the budget clips is the last one. -/
theorem logs_decodeLoop (hk : Known models sampling generation greedy known)
    (hne : known≠none → prompt≠[]) (hlook : 1≤lookahead) (n : ℕ) :
    ∀ s : Variables Token, limit-s.context.length=n → Ready prompt s →
      (known≠none → s.stats.accepted=s.stats.proposed) →
      Logs (Sound prompt lookahead limit) (known=none)
        (decodeLoop models lookahead sampling generation greedy limit s)
        (fun t => known≠none → t.stats.accepted=t.stats.proposed) := by
  induction n using Nat.strong_induction_on with
  | _ n ih =>
    intro s hn hs ha
    rw [decodeLoop]
    by_cases hc : s.context.length<limit
    · rw [dif_pos hc]
      have hpos : 0 < min lookahead (limit-s.context.length) := by omega
      refine (logs_decodeBlock hk hne hs rfl hpos).bind fun b hb => ?_
      have ha' := hb.accepted (limit-s.context.length) ha
      have hl : ((settle s (min lookahead (limit-s.context.length)) (limit-s.context.length)
          b).context).length=s.context.length+min (b.taken+1) (limit-s.context.length) := by
        have ht := hb.taken_le
        rw [settle,List.length_append,Block.settled,List.length_take,List.length_append,
          List.length_take,hb.length_eq,List.length_singleton,Nat.min_eq_left ht,
          Nat.min_comm]
      by_cases hclip : b.taken+1≤limit-s.context.length
      · exact ih _ (by rw [hl]; omega) _ rfl (hb.ready hs hclip) ha'
      · rw [decodeLoop,dif_neg (by rw [hl]; omega)]
        exact logs_pure ha'
    · rw [dif_neg hc]
      exact logs_pure ha

end Run

/-- A call that passes some token. -/
def Fed : Request Token → Prop
  | .call _ _ inputIds _ _ => inputIds≠[]
  | .crop _ _ _ => True

omit [DecidableEq Token] [Fintype Token] in
/-- Without a cache or a context nothing is held and everything is pending. -/
theorem ready_start (prompt : List Token) : Ready prompt (.start prompt () ()) := by
  constructor
  · exact List.prefix_refl prompt
  · exact ⟨rfl,fun h => h⟩
  · exact ⟨rfl,fun h => h⟩

/-- What is known of the models and draws decides what is known of a run. -/
theorem logs_generate (decoder : Decoder ω Token Row)
    {sampling : Sampling (EStateM PyError ω) P Row Token} {generation : GenerationConfig}
    {known : Option (List Token → Row)} (prompt : List Token)
    (hk : Known decoder.models sampling generation (decide (generation.temperature≤0)) known)
    (hne : known≠none → prompt≠[]) :
    Logs (Sound prompt decoder.lookahead (prompt.length+generation.maxNewTokens)) (known=none)
      (decoder.generate sampling generation prompt)
      (fun result => known≠none → result.2.accepted=result.2.proposed) := by
  refine (logs_decodeLoop hk hne decoder.lookahead_pos _ _ rfl (ready_start prompt)
    fun _ => rfl).bind fun s hs => ?_
  exact logs_pure hs

/-- Every request of every run is sound. Only the first draft call of an
empty prompt passes no token. A draft that answers as the target does has
every proposal accepted, at temperature zero and for proper draws, in a run
that returns. -/
theorem generate_requests (decoder : Decoder ω Token Row)
    (sampling : Sampling (EStateM PyError ω) P Row Token) (generation : GenerationConfig)
    (prompt : List Token) (w : ω) :
    (∀ request ∈ decoder.requests sampling generation prompt w,
      Sound prompt decoder.lookahead (prompt.length+generation.maxNewTokens) request) ∧
    (prompt≠[] → ∀ request ∈ decoder.requests sampling generation prompt w, Fed request) ∧
    ∀ row, decoder.models.Tabulated (fun _ => row) → prompt≠[] →
      (generation.temperature≤0 ∨ ProperDraws sampling generation) →
      ∃ tokens stats s, decoder.generate sampling generation prompt (w,[])=.ok (tokens,stats) s ∧
        stats.accepted=stats.proposed := by
  have hsound : ∀ request ∈ decoder.requests sampling generation prompt w,
      Sound prompt decoder.lookahead (prompt.length+generation.maxNewTokens) request := by
    have hk : Known decoder.models sampling generation (decide (generation.temperature≤0))
        none := by
      constructor
      · intro row hr
        exact absurd hr (Option.some_ne_none row).symm
      · intro hn
        exact absurd rfl hn
    have hl := (logs_generate decoder prompt hk fun hn => absurd rfl hn).run w
    unfold Ends at hl
    unfold Decoder.requests
    cases hr : decoder.generate sampling generation prompt (w,[]) with
    | ok result s =>
      rw [hr] at hl
      exact hl.1
    | error e s =>
      rw [hr] at hl
      exact hl.1
  refine ⟨hsound,?_,?_⟩
  · intro hp request hr
    have hs := hsound request hr
    cases request with
    | call side held inputIds context proposals =>
      intro he
      have hc := (hs.2.2.2 he).2.1
      have hpre := hs.1
      rw [hc] at hpre
      exact hp (List.prefix_nil.mp hpre)
    | crop side held excess => trivial
  · intro row hrow hp hd
    have hk : Known decoder.models sampling generation (decide (generation.temperature≤0))
        (some row) := by
      constructor
      · intro table ht
        rw [←Option.some.inj ht]
        exact hrow
      · intro _
        rcases hd with hd | hd
        · exact Or.inl (decide_eq_true hd)
        · exact Or.inr hd
    have hl := (logs_generate decoder prompt hk fun _ => hp).run w
    rcases hl.endings with ⟨result,s,hr,_,ha⟩ | ⟨e,s,_,_,hn⟩
    · exact ⟨result.1,result.2,s,hr,ha (Option.some_ne_none row)⟩
    · exact absurd hn (Option.some_ne_none row)

/-- Both models answer each history by the same chain. -/
def chainModels : Models Unit (Fin 31) (Fin 31) where
  answer _ held inputIds := pure (historyRows (chainToken 0) held inputIds)

/-- Rows that are their own most likely token, and no draw to make. -/
def drawlessWorld : Sampling (EStateM PyError Unit) ℚ (Fin 31) (Fin 31) where
  argmax row := row
  distribution row _ := pointMass row
  multinomial _ := throw (.runtimeError "no draw at temperature zero")
  randBelow _ := throw (.runtimeError "no draw at temperature zero")

/-- An identical draft of a history-dependent target, accepted in full. -/
theorem chain_accepted : ∃ tokens stats s,
    Decoder.generate ⟨chainModels,4,by decide⟩ drawlessWorld
      {maxNewTokens := 20, temperature := 0} [3,1,4,1,5] ((),[])=.ok (tokens,stats) s ∧
    stats.accepted=stats.proposed := by
  refine (generate_requests ⟨chainModels,4,by decide⟩ drawlessWorld
    {maxNewTokens := 20, temperature := 0} [3,1,4,1,5] ()).2.2 (chainToken 0) ?_
    (List.cons_ne_nil _ _) (Or.inl (le_refl 0))
  intro side held inputIds
  rfl

/-- An empty prompt has the draft called on no token at all. -/
theorem empty_prompt_unfed : ¬∀ request ∈ Decoder.requests ⟨chainModels,4,by decide⟩
    drawlessWorld {maxNewTokens := 20, temperature := 0} [] (), Fed request := by
  have hr : Decoder.requests ⟨chainModels,4,by decide⟩ drawlessWorld
      {maxNewTokens := 20, temperature := 0} [] ()=[.call .draft [] [] [] []] := by
    unfold Decoder.requests Decoder.generate
    rw [SpeculativeRequests.decodeLoop]
    rfl
  rw [hr]
  intro h
  exact h (.call .draft [] [] [] []) (List.mem_singleton_self _) rfl

end CudaForge.SpeculativeHistories
