import CudaForge.CyclicTurns
import CudaForge.TransitionRuns

/-!
# Routing requests to replicas

`_choose` of the replicated engine. A call reads the depth of every queue
without a lock; if several replicas tie it takes the lock, and the shared
rotation goes on until it yields one of them. Calls meet at the lock in any
order. The index that is returned is always of least depth, and calls that see
the same tie go around its replicas.
-/

namespace CudaForge.ReplicaRouting

open CyclicTurns TransitionRuns

/-- The replicas whose queue is shallowest, in a reading of the depths. -/
def candidatesOf (depths : List ℤ) : List ℕ :=
  (List.range depths.length).filter (fun index => depths[index]?=depths.min?)

/-- The statement with which a call returns. -/
inductive Exit where
  /-- There is a single candidate. -/
  | single
  /-- The rotation has yielded a candidate. -/
  | rotated
  /-- Behind the loop. -/
  | fallback
  deriving DecidableEq,Repr

/-- A call of `_choose` that has returned. -/
structure Call where
  /-- The depths that it has read. -/
  depths : List ℤ
  /-- Where it has returned. -/
  exit : Exit
  /-- What it has returned. -/
  index : ℕ
  deriving DecidableEq,Repr

/-- What the calls share, and the calls. -/
structure Router where
  /-- `_rotation`, by the index that it yields next. -/
  rotation : ℕ := 0
  /-- The depths read by the calls that wait for the lock. -/
  waiting : List (List ℤ) := []
  /-- The calls that have returned, in this order. -/
  returned : List Call := []
  deriving DecidableEq,Repr

/-- What a caller does next. -/
inductive Action where
  /-- A call begins: it reads the depths, and returns if nothing ties. -/
  | read (depths : List ℤ)
  /-- A waiting call takes the lock and goes through the loop. -/
  | lock (call : ℕ)
  deriving DecidableEq,Repr

/-- The part of a call that holds the lock, over so many replicas. -/
def rotate (replicas rotation : ℕ) (depths : List ℤ) : Call×ℕ :=
  let candidates := candidatesOf depths
  match turn replicas candidates replicas rotation with
  | (some index,rotation) => (⟨depths,.rotated,index⟩,rotation)
  | (none,rotation) => (⟨depths,.fallback,candidates.headD 0⟩,rotation)

/-- One action, on so many replicas. -/
def Router.step (replicas : ℕ) (r : Router) : Action → Option Router
  | .read depths =>
    if depths.length=replicas then
      let candidates := candidatesOf depths
      if candidates.length=1 then
        some {r with returned := r.returned++[⟨depths,.single,candidates.headD 0⟩]}
      else some {r with waiting := r.waiting++[depths]}
    else none
  | .lock call =>
    r.waiting[call]?.map fun depths =>
      let done := rotate replicas r.rotation depths
      ⟨done.2,r.waiting.eraseIdx call,r.returned++[done.1]⟩

/-- The calls on an engine of so many replicas; the constructor refuses none. -/
def routerMachine (replicas : ℕ) : Machine Router Action where
  starts r := 0<replicas ∧ r={}
  steps r action t := r.step replicas action=some t

section Candidates

variable {depths : List ℤ} {index replicas : ℕ}

/-- A candidate is an index whose depth is the least. -/
theorem mem_candidatesOf : index∈candidatesOf depths ↔
    ∃ depth, depths[index]?=some depth ∧ ∀ other∈depths, depth≤other := by
  rw [candidatesOf,List.mem_filter,List.mem_range,decide_eq_true_iff]
  constructor
  · rintro ⟨hi,he⟩
    rw [List.getElem?_eq_getElem hi] at he ⊢
    exact ⟨_,rfl,(List.min?_eq_some_iff.mp he.symm).2⟩
  · rintro ⟨depth,hd,hle⟩
    obtain ⟨hi,he⟩ := List.getElem?_eq_some_iff.mp hd
    refine ⟨hi,hd.trans (List.min?_eq_some_iff.mpr ⟨?_,hle⟩).symm⟩
    exact he ▸ List.getElem_mem hi

/-- There is one, where there is a replica. -/
theorem candidatesOf_ne_nil (hd : depths≠[]) : candidatesOf depths≠[] := by
  obtain ⟨depth,hm⟩ := Option.ne_none_iff_exists'.mp (mt List.min?_eq_none_iff.mp hd)
  obtain ⟨hmem,hle⟩ := List.min?_eq_some_iff.mp hm
  obtain ⟨index,hi,he⟩ := List.mem_iff_getElem.mp hmem
  refine List.ne_nil_of_mem (a:=index) (mem_candidatesOf.mpr ⟨depth,?_,hle⟩)
  rw [List.getElem?_eq_getElem hi,he]

/-- Candidates are indices of replicas. -/
theorem candidatesOf_lt (hd : depths.length=replicas) :
    ∀ index∈candidatesOf depths, index<replicas := by
  intro index hm
  rw [←hd]
  exact List.mem_range.mp (List.mem_filter.mp hm).1

/-- They are listed upwards. -/
theorem candidatesOf_increasing (depths : List ℤ) : (candidatesOf depths).Pairwise (·<·) :=
  List.pairwise_lt_range.filter _

end Candidates

section Runs

variable {replicas : ℕ} {r t : Router}

/-- Whether a call had to take the lock. -/
def Call.tied (call : Call) : Bool := decide (call.exit≠.single)

/-- Calls that took the lock one after another, from one place of the rotation to
another. -/
def Linked (replicas : ℕ) : ℕ → List Call → ℕ → Prop
  | rotation,[],last => rotation=last
  | rotation,call::calls,last =>
    turn replicas (candidatesOf call.depths) replicas rotation=
      (some call.index,(call.index+1)%replicas) ∧
        Linked replicas ((call.index+1)%replicas) calls last

/-- One link more. -/
theorem Linked.snoc {rotation last next : ℕ} {calls : List Call} {call : Call}
    (h : Linked replicas rotation calls last)
    (ht : turn replicas (candidatesOf call.depths) replicas last=
      (some call.index,(call.index+1)%replicas)) (hn : next=(call.index+1)%replicas) :
    Linked replicas rotation (calls++[call]) next := by
  induction calls generalizing rotation with
  | nil =>
    obtain rfl : rotation=last := h
    exact ⟨ht,hn.symm⟩
  | cons first calls ih => exact ⟨h.1,ih h.2⟩

/-- The calls behind some of them are linked, too. -/
theorem Linked.drop (hpos : 0<replicas) {rotation last : ℕ} {before calls : List Call}
    (hr : rotation<replicas) (h : Linked replicas rotation (before++calls) last) :
    ∃ place < replicas, Linked replicas place calls last := by
  induction before generalizing rotation with
  | nil => exact ⟨rotation,hr,h⟩
  | cons call before ih => exact ih (Nat.mod_lt _ hpos) h.2

/-- Linked calls that see the same candidates take turns among them. -/
theorem Linked.follows {rotation last : ℕ} {window after : List Call} {members : List ℕ}
    (h : Linked replicas rotation (window++after) last)
    (hw : ∀ call∈window, candidatesOf call.depths=members) :
    Follows replicas members rotation (window.map Call.index) := by
  induction window generalizing rotation with
  | nil => trivial
  | cons call window ih =>
    obtain ⟨ht,hrest⟩ := h
    rw [hw call List.mem_cons_self] at ht
    exact ⟨ht,ih hrest (fun other hm => hw other (List.mem_cons_of_mem _ hm))⟩

/-- What holds at all times. -/
structure Sound (replicas : ℕ) (r : Router) : Prop where
  /-- There are replicas. -/
  positive : 0<replicas
  /-- The rotation yields an index next. -/
  rotation : r.rotation<replicas
  /-- A waiting call has read the depth of every replica. -/
  waiting : ∀ depths∈r.waiting, depths.length=replicas
  /-- A call has returned a candidate, and not from behind the loop. -/
  returned : ∀ call∈r.returned, call.exit≠.fallback ∧ call.depths.length=replicas ∧
    call.index∈candidatesOf call.depths
  /-- The calls that took the lock have moved the rotation on. -/
  linked : Linked replicas 0 (r.returned.filter Call.tied) r.rotation

/-- The loop always finds a candidate. -/
theorem rotate_eq (hpos : 0<replicas) {rotation : ℕ} (hr : rotation<replicas)
    {depths : List ℤ} (hd : depths.length=replicas) :
    ∃ index∈candidatesOf depths, rotate replicas rotation depths=
        (⟨depths,.rotated,index⟩,(index+1)%replicas) ∧
      turn replicas (candidatesOf depths) replicas rotation=(some index,(index+1)%replicas) := by
  have hne : depths≠[] := List.length_pos_iff.mp (hd.symm ▸ hpos)
  obtain ⟨index,hm,ht⟩ := turn_succeeds (candidatesOf_ne_nil hne) (candidatesOf_lt hd) hr
  refine ⟨index,hm,?_,ht⟩
  simp only [rotate,ht]

/-- One action keeps that. -/
theorem Sound.step (h : Sound replicas r) {action : Action}
    (hs : r.step replicas action=some t) : Sound replicas t := by
  cases action with
  | read depths =>
    obtain ⟨hd,hs⟩ := Option.ite_none_right_eq_some.mp hs
    split at hs
    · next hone =>
      obtain rfl := Option.some.inj hs
      have hne : candidatesOf depths≠[] := List.length_pos_iff.mp (hone.symm ▸ Nat.one_pos)
      refine ⟨h.positive,h.rotation,h.waiting,?_,?_⟩
      · intro call hm
        rcases List.mem_append.mp hm with hm | hm
        · exact h.returned call hm
        · obtain rfl := List.mem_singleton.mp hm
          refine ⟨Exit.noConfusion,hd,?_⟩
          change (candidatesOf depths).headD 0∈candidatesOf depths
          rw [List.headD_eq_head?_getD,List.head?_eq_some_head hne,Option.getD_some]
          exact List.head_mem hne
      · have hout : [(⟨depths,.single,(candidatesOf depths).headD 0⟩ : Call)].filter Call.tied=[] :=
          rfl
        rw [List.filter_append,hout,List.append_nil]
        exact h.linked
    · obtain rfl := Option.some.inj hs
      refine ⟨h.positive,h.rotation,?_,h.returned,h.linked⟩
      intro other hm
      rcases List.mem_append.mp hm with hm | hm
      · exact h.waiting other hm
      · exact List.mem_singleton.mp hm ▸ hd
  | lock call =>
    obtain ⟨depths,hc,rfl⟩ := Option.map_eq_some_iff.mp hs
    have hd := h.waiting depths (List.mem_of_getElem? hc)
    obtain ⟨index,hm,he,ht⟩ := rotate_eq h.positive h.rotation hd
    rw [he]
    refine ⟨h.positive,Nat.mod_lt _ h.positive,?_,?_,?_⟩
    · intro other ho
      exact h.waiting other (List.mem_of_mem_eraseIdx ho)
    · intro other ho
      rcases List.mem_append.mp ho with ho | ho
      · exact h.returned other ho
      · obtain rfl := List.mem_singleton.mp ho
        exact ⟨Exit.noConfusion,hd,hm⟩
    · rw [List.filter_append,List.filter_cons_of_pos (show Call.tied _=true from rfl),
        List.filter_nil]
      exact h.linked.snoc ht rfl

/-- So it holds in every run. -/
theorem reaches_sound (h : (routerMachine replicas).Reaches r) : Sound replicas r := by
  refine h.invariant ?_ (fun _ _ _ hr hs => hr.step hs)
  rintro r ⟨hpos,rfl⟩
  exact ⟨hpos,hpos,fun _ hm => absurd hm List.not_mem_nil,fun _ hm => absurd hm List.not_mem_nil,
    rfl⟩

/-- A call returns an index of least depth in its own reading, and never from
behind the loop. Calls that take the lock one after another and see the same tie
go around its members, so that no member is picked twice more than another. -/
theorem choose_fair (h : (routerMachine replicas).Reaches r) :
    (∀ call∈r.returned, call.exit≠.fallback ∧
      ∃ depth, call.depths[call.index]?=some depth ∧ ∀ other∈call.depths, depth≤other) ∧
    ∀ tying window, 2 ≤ tying.length → window <:+: r.returned.filter Call.tied →
      (∀ call∈window, candidatesOf call.depths=tying) →
        (∃ first, window.map Call.index=
          (List.range window.length).map (fun k => member tying (first+k))) ∧
        ∀ one∈tying, ∀ other∈tying,
          (window.map Call.index).count one ≤ (window.map Call.index).count other+1 := by
  have hs := reaches_sound h
  constructor
  · intro call hm
    obtain ⟨hf,_,hi⟩ := hs.returned call hm
    exact ⟨hf,mem_candidatesOf.mp hi⟩
  · intro tying window _ hw hsame
    by_cases hwin : window=[]
    · subst hwin
      exact ⟨⟨0,rfl⟩,fun _ _ _ _ => Nat.zero_le _⟩
    · obtain ⟨call,hm⟩ := List.exists_mem_of_ne_nil window hwin
      obtain ⟨_,hd,_⟩ := hs.returned call (List.mem_of_mem_filter (hw.subset hm))
      obtain rfl := hsame call hm
      have hne : candidatesOf call.depths≠[] :=
        candidatesOf_ne_nil (List.length_pos_iff.mp (hd.symm ▸ hs.positive))
      have hup := candidatesOf_increasing call.depths
      obtain ⟨before,after,he⟩ := hw
      have hlink := hs.linked
      rw [←he,List.append_assoc] at hlink
      obtain ⟨place,hp,hl⟩ := hlink.drop hs.positive hs.positive
      obtain ⟨first,hg⟩ := (hl.follows hsame).goes_around hup (candidatesOf_lt hd) hne hp
      rw [List.length_map] at hg
      refine ⟨⟨first,hg⟩,?_⟩
      intro one ho other hother
      rw [hg]
      exact count_balanced hup first window.length ho hother

/-- Three replicas, two of which tie for three calls; the second call overtakes
the first at the lock. -/
def tiedCalls : List Action :=
  [.read [0,4,0],.read [0,4,0],.lock 1,.read [5,2,3],.lock 0,.read [0,9,0],.lock 0]

/-- The calls that tie go around the first and the last replica. -/
theorem tiedCalls_fair : ∃ r, (routerMachine 3).Reaches r ∧
    r.returned.map Call.index=[0,1,2,0] ∧
    (∀ call∈r.returned, call.exit≠.fallback) ∧
    ((r.returned.filter Call.tied).map Call.index).count 2 ≤
      ((r.returned.filter Call.tied).map Call.index).count 0+1 := by
  obtain ⟨r,hr,hi,hc⟩ := Machine.Reaches.replayed (m := routerMachine 3)
    (P := fun r => r.returned.map Call.index=[0,1,2,0] ∧
      ∀ call∈r.returned.filter Call.tied, candidatesOf call.depths=[0,2]) (fun _ _ => true)
    (fun _ _ _ h => h) tiedCalls (.start (s := {}) ⟨by decide,rfl⟩) (by decide +kernel)
  obtain ⟨hleast,hfair⟩ := choose_fair hr.of_guarded
  refine ⟨r,hr.of_guarded,hi,fun call hm => (hleast call hm).1,?_⟩
  exact (hfair [0,2] _ (by decide) (List.infix_refl _) hc).2 2 (by decide) 0 (by decide)

end Runs

end CudaForge.ReplicaRouting
