import Mathlib.Logic.Relation
import Mathlib.Tactic

/-!
# In-order streams with events

Commands are issued to streams. The commands of one stream finish in the order of
their issue; those of different streams in any order, unless a command waits for
an event: it then comes after the command that last recorded the event before
the wait was issued. What has finished is closed under what comes before, and
whatever waits for what, some unfinished command can always finish.
-/

namespace CudaForge.StreamOrdering

variable {S E W : Type} [DecidableEq S] [DecidableEq E]

/-- What can be issued to a stream. -/
inductive Command (E W : Type) where
  /-- Something to do. -/
  | work (what : W)
  /-- The event happens when the stream gets here. -/
  | record (event : E)
  /-- The stream goes on when the event has happened. -/
  | wait (event : E)
  deriving DecidableEq,Repr

/-- A command and the stream to which it was issued. -/
structure Issued (S E W : Type) where
  /-- The stream. -/
  stream : S
  /-- The command. -/
  command : Command E W
  deriving DecidableEq,Repr

/-- A command is to record an event. -/
def Issued.records (event : E) (c : Issued S E W) : Bool :=
  match c.command with
  | .record e => decide (e=event)
  | _ => false

/-- The last record of an event among the first commands. -/
def lastRecord (program : List (Issued S E W)) (event : E) : ℕ → Option ℕ
  | 0 => none
  | count+1 =>
    if program[count]?.any (Issued.records event) then some count
    else lastRecord program event count

/-- The record for which a command waits. An event that was never recorded does not
make it wait. -/
def awaited (program : List (Issued S E W)) (place : ℕ) : Option ℕ :=
  match program[place]? with
  | some ⟨_,.wait event⟩ => lastRecord program event place
  | _ => none

/-- A command comes directly before another: it was issued to the same stream
earlier, or the other waits for it. -/
def Direct (program : List (Issued S E W)) (first second : ℕ) : Prop :=
  first < second ∧ second < program.length ∧
    (program[first]?.map Issued.stream=program[second]?.map Issued.stream ∨
      awaited program second=some first)

instance (program : List (Issued S E W)) (first second : ℕ) :
    Decidable (Direct program first second) := inferInstanceAs (Decidable (_ ∧ _ ∧ (_ ∨ _)))

/-- A command comes before another. -/
def Before (program : List (Issued S E W)) : ℕ → ℕ → Prop := Relation.TransGen (Direct program)

/-- What was issued, and which of it has finished. -/
structure Device (S E W : Type) where
  /-- The commands in the order of their issue. -/
  program : List (Issued S E W)
  /-- Whether the command at a place has finished. -/
  done : ℕ → Bool

/-- A command can finish: all that comes directly before it has. -/
def Ready (d : Device S E W) (place : ℕ) : Prop :=
  place < d.program.length ∧ d.done place=false ∧
    ∀ first < place, Direct d.program first place → d.done first=true

instance (d : Device S E W) (place : ℕ) : Decidable (Ready d place) :=
  inferInstanceAs (Decidable (_ ∧ _ ∧ ∀ first < place, _ → _))

/-- A command is issued. -/
def issue (d : Device S E W) (c : Issued S E W) : Device S E W := ⟨d.program++[c],d.done⟩

/-- A command finishes. -/
def finish (d : Device S E W) (place : ℕ) : Device S E W :=
  ⟨d.program,Function.update d.done place true⟩

/-- All that was issued to a stream has finished. -/
def complete (d : Device S E W) (stream : S) : Bool :=
  (List.range d.program.length).all fun place =>
    d.done place || decide (d.program[place]?.map Issued.stream≠some stream)

/-- How many commands have not finished. -/
def unfinished (d : Device S E W) : ℕ :=
  ((List.range d.program.length).filter fun place => !d.done place).length

section Programs

variable {program : List (Issued S E W)} {c : Issued S E W} {event : E} {stream : S}
  {count place first second : ℕ}

omit [DecidableEq S] in
/-- A command records an event. -/
theorem any_records (h : program[place]?.any (Issued.records event)=true) :
    ∃ stream, program[place]?=some ⟨stream,.record event⟩ := by
  obtain ⟨c,hc,hr⟩ := (Option.any_eq_true _ _).mp h
  rcases c with ⟨stream,command⟩
  cases command with
  | work what => exact absurd hr Bool.false_ne_true
  | record e =>
    rw [Issued.records,decide_eq_true_eq] at hr
    exact ⟨stream,hr ▸ hc⟩
  | wait e => exact absurd hr Bool.false_ne_true

omit [DecidableEq S] in
/-- The last record is a record, below the count, and none between. -/
theorem lastRecord_spec (h : lastRecord program event count=some place) :
    place < count ∧ ∃ stream, program[place]?=some ⟨stream,.record event⟩ := by
  induction count with
  | zero => exact absurd h.symm (Option.some_ne_none place)
  | succ count ih =>
    rw [lastRecord] at h
    split at h
    · next hr =>
      have he : count=place := Option.some.inj h
      exact ⟨he ▸ Nat.lt_succ_self count,any_records (he ▸ hr)⟩
    · obtain ⟨hlt,hr⟩ := ih h
      exact ⟨Nat.lt_succ_of_lt hlt,hr⟩

omit [DecidableEq S] in
/-- After a record there is a last one, not before it. -/
theorem lastRecord_of_record (hr : program[place]?=some ⟨stream,.record event⟩)
    (hlt : place < count) : ∃ last, lastRecord program event count=some last ∧ place ≤ last := by
  have hany : program[place]?.any (Issued.records event)=true := by
    rw [hr,Option.any_some]
    exact decide_eq_true rfl
  induction count with
  | zero => exact absurd hlt (Nat.not_lt_zero place)
  | succ count ih =>
    rw [lastRecord]
    split
    · exact ⟨count,rfl,Nat.le_of_lt_succ hlt⟩
    · next hn =>
      have hne : place≠count := by
        rintro rfl
        exact hn hany
      exact ih (Nat.lt_of_le_of_ne (Nat.le_of_lt_succ hlt) hne)

omit [DecidableEq S] in
/-- What is issued later does not change what was recorded. -/
theorem lastRecord_append (rest : List (Issued S E W)) (h : count ≤ program.length) :
    lastRecord (program++rest) event count=lastRecord program event count := by
  induction count with
  | zero => rfl
  | succ count ih =>
    rw [lastRecord,lastRecord,List.getElem?_append_left h,ih (Nat.le_of_succ_le h)]

omit [DecidableEq S] in
/-- Nor for what a command waits. -/
theorem awaited_append (rest : List (Issued S E W)) (h : place < program.length) :
    awaited (program++rest) place=awaited program place := by
  rw [awaited,awaited,List.getElem?_append_left h]
  split
  · exact lastRecord_append rest h.le
  · rfl

omit [DecidableEq S] in
/-- Nor what comes before it. -/
theorem direct_append (rest : List (Issued S E W)) (h : second < program.length) :
    Direct (program++rest) first second ↔ Direct program first second := by
  by_cases hlt : first < second
  · rw [Direct,Direct,awaited_append rest h,List.getElem?_append_left h,
      List.getElem?_append_left (hlt.trans h),List.length_append]
    refine and_congr_right fun _ => and_congr_left fun _ => ?_
    exact ⟨fun _ => h,fun _ => Nat.lt_add_right _ h⟩
  · exact ⟨fun hd => absurd hd.1 hlt,fun hd => absurd hd.1 hlt⟩

omit [DecidableEq S] in
/-- What is issued to one stream comes in order. -/
theorem before_of_stream (hlt : first < second)
    (hf : program[first]?.map Issued.stream=some stream)
    (hs : program[second]?.map Issued.stream=some stream) : Before program first second := by
  have hlen : second < program.length := by
    by_contra hn
    rw [List.getElem?_eq_none (Nat.le_of_not_lt hn),Option.map_none] at hs
    exact Option.some_ne_none stream hs.symm
  exact .single ⟨hlt,hlen,Or.inl (hf.trans hs.symm)⟩

omit [DecidableEq S] in
/-- When an event is only recorded on one stream, then what that stream was issued
up to a record comes before what another stream is issued after it waits for
the event, whatever was recorded in between. -/
theorem before_of_wait {signaller waiter : S} {recorded waited : ℕ}
    (howner : ∀ (place : ℕ) (stream : S), program[place]?=some ⟨stream,.record event⟩ →
      stream=signaller)
    (hr : program[recorded]?=some ⟨signaller,.record event⟩)
    (hw : program[waited]?=some ⟨waiter,.wait event⟩) (hrw : recorded < waited)
    (hf : program[first]?.map Issued.stream=some signaller) (hfr : first ≤ recorded)
    (hs : program[second]?.map Issued.stream=some waiter) (hws : waited < second) :
    Before program first second := by
  obtain ⟨last,hlast,hle⟩ := lastRecord_of_record hr hrw
  obtain ⟨hlt,stream,hrecord⟩ := lastRecord_spec hlast
  have hstream : program[last]?.map Issued.stream=some signaller := by
    rw [hrecord,Option.map_some,howner last stream hrecord]
  have hwaits : awaited program waited=some last := by
    rw [awaited,hw]
    exact hlast
  have hlen : waited < program.length := (List.getElem?_eq_some_iff.mp hw).1
  have hmiddle : Before program last waited := .single ⟨hlt,hlen,Or.inr hwaits⟩
  have hafter : Before program waited second :=
    before_of_stream hws (by rw [hw,Option.map_some]) hs
  rcases Nat.lt_or_eq_of_le (hfr.trans hle) with hfl | rfl
  · exact ((before_of_stream hfl hf hstream).trans hmiddle).trans hafter
  · exact hmiddle.trans hafter

end Programs

/-- What has finished was issued, and all that comes before it has finished. -/
structure Coherent (d : Device S E W) : Prop where
  /-- Only what was issued finishes. -/
  issued : ∀ place, d.done place=true → place < d.program.length
  /-- Nothing finishes before what comes directly before it. -/
  closed : ∀ first second, Direct d.program first second → d.done second=true →
    d.done first=true

section Devices

variable {d v : Device S E W} {c : Issued S E W} {place first second : ℕ} {stream : S}

omit [DecidableEq S] in
/-- Nothing has been issued. -/
theorem coherent_nil : Coherent (⟨[],fun _ => false⟩ : Device S E W) :=
  ⟨fun _ h => absurd h Bool.false_ne_true,fun _ _ _ h => absurd h Bool.false_ne_true⟩

omit [DecidableEq S] in
/-- Issuing keeps what has finished closed. -/
theorem Coherent.issue (h : Coherent d) (c : Issued S E W) : Coherent (issue d c) := by
  refine ⟨fun place hd => ?_,fun first second hdirect hd => ?_⟩
  · have hlt := h.issued place hd
    simp only [StreamOrdering.issue,List.length_append]
    omega
  · exact h.closed first second ((direct_append [c] (h.issued second hd)).mp hdirect) hd

omit [DecidableEq S] in
/-- So does finishing what is ready. -/
theorem Coherent.finish (h : Coherent d) (hr : Ready d place) : Coherent (finish d place) := by
  have hmono : ∀ other, d.done other=true → (StreamOrdering.finish d place).done other=true := by
    intro other hd
    simp only [StreamOrdering.finish]
    by_cases he : other=place
    · rw [he,Function.update_self]
    · rw [Function.update_of_ne he,hd]
  refine ⟨fun other hd => ?_,fun first second hdirect hd => ?_⟩
  · by_cases he : other=place
    · exact he ▸ hr.1
    · simp only [StreamOrdering.finish,Function.update_of_ne he] at hd
      exact h.issued other hd
  · by_cases he : second=place
    · exact hmono first (hr.2.2 first (he ▸ hdirect.1) (he ▸ hdirect))
    · simp only [StreamOrdering.finish,Function.update_of_ne he] at hd
      exact hmono first (h.closed first second hdirect hd)

omit [DecidableEq S] in
/-- What comes before what has finished has finished. -/
theorem Coherent.before (h : Coherent d) (hb : Before d.program first second) :
    d.done second=true → d.done first=true := by
  induction hb with
  | single hd => exact h.closed _ _ hd
  | tail _ hd ih => exact fun hs => ih (h.closed _ _ hd hs)

omit [DecidableEq S] in
/-- Nothing is stuck: the first command that has not finished can. -/
theorem exists_ready (h : ∃ place < d.program.length, d.done place=false) :
    ∃ place, Ready d place := by
  obtain ⟨hlt,hd⟩ := Nat.find_spec h
  refine ⟨Nat.find h,hlt,hd,fun first hf _ => ?_⟩
  have hmin := Nat.find_min h hf
  cases hv : d.done first with
  | true => rfl
  | false => exact absurd ⟨hf.trans hlt,hv⟩ hmin

omit [DecidableEq S] in
/-- Whatever finishes, one command fewer is left. -/
theorem unfinished_finish (hr : Ready d place) :
    unfinished (finish d place)+1=unfinished d := by
  have hmem : place∈(List.range d.program.length).filter fun other => !d.done other := by
    refine List.mem_filter.mpr ⟨List.mem_range.mpr hr.1,?_⟩
    rw [hr.2.1,Bool.not_false]
  have hfilter : ((List.range d.program.length).filter
      fun other => !(finish d place).done other)=
      ((List.range d.program.length).filter fun other => !d.done other).erase place := by
    rw [((List.nodup_range).filter _).erase_eq_filter,List.filter_filter]
    refine List.filter_congr fun other _ => ?_
    by_cases he : other=place
    · simp only [finish,he,Function.update_self,Bool.not_true,bne_self_eq_false,Bool.false_and]
    · simp only [finish,Function.update_of_ne he,bne_iff_ne.mpr he,Bool.true_and]
  have hlen := List.length_erase_add_one hmem
  rw [←hfilter] at hlen
  exact hlen

omit [DecidableEq S] [DecidableEq E] in
/-- Nothing is left when every command has finished. -/
theorem unfinished_eq_zero :
    unfinished d=0 ↔ ∀ place < d.program.length, d.done place=true := by
  rw [unfinished,List.length_eq_zero_iff,List.filter_eq_nil_iff]
  refine forall_congr' fun place => ?_
  rw [List.mem_range,Bool.not_eq_true,Bool.not_eq_false']

omit [DecidableEq E] in
/-- A stream is complete when all that was issued to it has finished. -/
theorem complete_iff : complete d stream=true ↔
    ∀ place, d.program[place]?.map Issued.stream=some stream → d.done place=true := by
  rw [complete,List.all_eq_true]
  constructor
  · intro h place hs
    have hlt : place < d.program.length := by
      by_contra hn
      rw [List.getElem?_eq_none (Nat.le_of_not_lt hn),Option.map_none] at hs
      exact Option.some_ne_none stream hs.symm
    have hb := h place (List.mem_range.mpr hlt)
    rw [hs,decide_eq_false (not_not.mpr rfl),Bool.or_false] at hb
    exact hb
  · intro h place _
    by_cases hs : d.program[place]?.map Issued.stream=some stream
    · rw [h place hs,Bool.true_or]
    · rw [decide_eq_true hs,Bool.or_true]

end Devices

end CudaForge.StreamOrdering
