import CudaForge.TransitionRuns

/-!
# Objects that own handles

Objects that each own at most one handle of a provider, and pass it on: an object
is constructed with a fresh handle or without one, its handle can be moved to
another object, and destroying it or assigning to it releases what it owns. To
release a handle that is not live is an error. The invariant says that the live
handles are those owned, each by one object; every action keeps it and none
makes the error.
-/

namespace CudaForge.OwnedHandles

open TransitionRuns

variable {V H D : Type} [DecidableEq V] [DecidableEq H]

/-- An object: its handle, and what else it holds. -/
structure Owner (H D : Type) where
  /-- The handle, if it owns one. -/
  handle : Option H
  /-- Its other members. -/
  data : D

/-- What the objects of a class have in common. -/
structure Kind (D : Type) where
  /-- The other members of an object that has been moved from. -/
  leaves : D → D

/-- The objects by their names, and the provider's live handles. -/
structure World (V H D : Type) where
  /-- The object of a name, while it lives. -/
  objects : V → Option (Owner H D)
  /-- Whether a handle is live. -/
  live : H → Bool

/-- What can be done to objects. -/
inductive Action (V H D : Type) where
  /-- A constructor, which may make nothing and raise instead. -/
  | construct (target : V) (made : Option (Owner H D))
  /-- The move constructor. -/
  | moveConstruct (target source : V)
  /-- The move assignment. -/
  | moveAssign (target source : V)
  /-- The destructor. -/
  | destruct (target : V)

/-- The handle that a name's object owns. -/
def World.handleOf (w : World V H D) (name : V) : Option H := (w.objects name).bind Owner.handle

/-- An action is on objects that live, or makes one where none does; a handle that
the provider hands out is not live. -/
def Allowed (w : World V H D) : Action V H D → Prop
  | .construct target made => w.objects target=none ∧
      ∀ o, made=some o → ∀ h, o.handle=some h → w.live h=false
  | .moveConstruct target source => w.objects target=none ∧ w.objects source≠none
  | .moveAssign target source => w.objects target≠none ∧ w.objects source≠none
  | .destruct target => w.objects target≠none

/-- The provider takes a handle back, which has to be live. -/
def release (handle : Option H) (live : H → Bool) : Option (H → Bool) :=
  match handle with
  | none => some live
  | some h => if live h then some (Function.update live h false) else none

/-- The objects after one has been moved to a name. -/
def moved (kind : Kind D) (objects : V → Option (Owner H D)) (target source : V) (o : Owner H D) :
    V → Option (Owner H D) :=
  Function.update (Function.update objects source (some ⟨none,kind.leaves o.data⟩)) target (some o)

/-- One action. -/
def act (kind : Kind D) (w : World V H D) : Action V H D → Option (World V H D)
  | .construct _ none => some w
  | .construct target (some o) =>
    some ⟨Function.update w.objects target (some o),fun h => w.live h || decide (o.handle=some h)⟩
  | .moveConstruct target source =>
    (w.objects source).map (fun o => ⟨moved kind w.objects target source o,w.live⟩)
  | .moveAssign target source =>
    if target=source then some w
    else (w.objects source).bind (fun o => (release (w.handleOf target) w.live).map (fun live =>
      ⟨moved kind w.objects target source o,live⟩))
  | .destruct target => (release (w.handleOf target) w.live).map (fun live =>
      ⟨Function.update w.objects target none,live⟩)

/-- The runs from a world without objects and without live handles. -/
def ownedMachine (kind : Kind D) : Machine (World V H D) (Action V H D) where
  starts w := w.objects=(fun _ => none) ∧ w.live=(fun _ => false)
  steps w a v := Allowed w a ∧ act kind w a=some v

/-- The live handles are those owned, each by one name. -/
structure Owned (handles : V → Option H) (live : H → Bool) : Prop where
  /-- What is owned is live. -/
  live_of : ∀ name h, handles name=some h → live h=true
  /-- Nothing is owned twice. -/
  unique : ∀ name other h, handles name=some h → handles other=some h → name=other
  /-- What is live is owned. -/
  owner_of : ∀ h, live h=true → ∃ name, handles name=some h

variable {handles : V → Option H} {live : H → Bool} {target source name : V}

/-- A fresh handle gets its owner. -/
theorem Owned.taken (ho : Owned handles live) (ht : handles target=none) {handle : Option H}
    (hf : ∀ h, handle=some h → live h=false) :
    Owned (Function.update handles target handle)
      (fun h => live h || decide (handle=some h)) := by
  have hown : ∀ name h, Function.update handles target handle name=some h →
      (name=target ∧ handle=some h) ∨ (name≠target ∧ handles name=some h) := by
    intro name h hn
    by_cases he : name=target
    · rw [he,Function.update_self] at hn
      exact Or.inl ⟨he,hn⟩
    · rw [Function.update_of_ne he] at hn
      exact Or.inr ⟨he,hn⟩
  have hfresh : ∀ h, handle=some h → ∀ name, handles name≠some h := by
    intro h hh name hn
    exact Bool.false_ne_true ((hf h hh).symm.trans (ho.live_of name h hn))
  refine ⟨?_,?_,?_⟩
  · intro name h hn
    rcases hown name h hn with ⟨_,hh⟩|⟨_,hh⟩
    · simp only [hh,decide_true,Bool.or_true]
    · simp only [ho.live_of name h hh,Bool.true_or]
  · intro name other h hn hm
    rcases hown name h hn with ⟨he,hh⟩|⟨_,hh⟩
    · rcases hown other h hm with ⟨hf',_⟩|⟨_,hg⟩
      · rw [he,hf']
      · exact absurd hg (hfresh h hh other)
    · rcases hown other h hm with ⟨_,hg⟩|⟨_,hg⟩
      · exact absurd hh (hfresh h hg name)
      · exact ho.unique name other h hh hg
  · intro h hl
    by_cases hh : handle=some h
    · exact ⟨target,by rw [Function.update_self,hh]⟩
    · simp only [hh,decide_false,Bool.or_false] at hl
      obtain ⟨name,hn⟩ := ho.owner_of h hl
      have hne : name≠target := by
        rintro rfl
        exact absurd (ht.symm.trans hn) (Option.some_ne_none h).symm
      exact ⟨name,by rw [Function.update_of_ne hne,hn]⟩

/-- What an object owns can be released. -/
theorem Owned.released (ho : Owned handles live) (target : V) :
    ∃ left, release (handles target) live=some left ∧
      Owned (Function.update handles target none) left := by
  have hcleared : ∀ name h, Function.update handles target none name=some h →
      name≠target ∧ handles name=some h := by
    intro name h hn
    by_cases he : name=target
    · rw [he,Function.update_self] at hn
      exact absurd hn (Option.some_ne_none h).symm
    · exact ⟨he,by rwa [Function.update_of_ne he] at hn⟩
  cases hh : handles target with
  | none =>
    refine ⟨live,rfl,fun name h hn => ho.live_of name h (hcleared name h hn).2,
      fun name other h hn hm => ho.unique name other h (hcleared name h hn).2
        (hcleared other h hm).2,fun h hl => ?_⟩
    obtain ⟨name,hn⟩ := ho.owner_of h hl
    have hne : name≠target := by
      rintro rfl
      exact absurd (hh.symm.trans hn) (Option.some_ne_none h).symm
    exact ⟨name,by rw [Function.update_of_ne hne,hn]⟩
  | some owned =>
    refine ⟨Function.update live owned false,if_pos (ho.live_of target owned hh),?_,?_,?_⟩
    · intro name h hn
      obtain ⟨hne,hn⟩ := hcleared name h hn
      have hother : h≠owned := by
        rintro rfl
        exact hne (ho.unique name target h hn hh)
      rw [Function.update_of_ne hother]
      exact ho.live_of name h hn
    · intro name other h hn hm
      exact ho.unique name other h (hcleared name h hn).2 (hcleared other h hm).2
    · intro h hl
      by_cases he : h=owned
      · rw [he,Function.update_self] at hl
        exact absurd hl Bool.false_ne_true
      · rw [Function.update_of_ne he] at hl
        obtain ⟨name,hn⟩ := ho.owner_of h hl
        have hne : name≠target := by
          rintro rfl
          exact he (Option.some.inj (hn.symm.trans hh))
        exact ⟨name,by rw [Function.update_of_ne hne,hn]⟩

omit [DecidableEq H] in
/-- A handle passes from one object to another that owns none. -/
theorem Owned.passed (ho : Owned handles live) (ht : handles target=none)
    (hne : target≠source) :
    Owned (Function.update (Function.update handles source none) target (handles source))
      live := by
  have hown : ∀ name h, Function.update (Function.update handles source none) target
      (handles source) name=some h →
      ∃ origin, handles origin=some h ∧ ((name=target ∧ origin=source) ∨
        (name≠target ∧ name≠source ∧ origin=name)) := by
    intro name h hn
    by_cases he : name=target
    · rw [he,Function.update_self] at hn
      exact ⟨source,hn,Or.inl ⟨he,rfl⟩⟩
    · rw [Function.update_of_ne he] at hn
      by_cases hs : name=source
      · rw [hs,Function.update_self] at hn
        exact absurd hn (Option.some_ne_none h).symm
      · rw [Function.update_of_ne hs] at hn
        exact ⟨name,hn,Or.inr ⟨he,hs,rfl⟩⟩
  refine ⟨?_,?_,?_⟩
  · intro name h hn
    obtain ⟨origin,hf,_⟩ := hown name h hn
    exact ho.live_of origin h hf
  · intro name other h hn hm
    obtain ⟨a,ha,hcase⟩ := hown name h hn
    obtain ⟨b,hb,hcase'⟩ := hown other h hm
    have hab := ho.unique a b h ha hb
    rcases hcase with ⟨hx,hy⟩|⟨hx,hy,hz⟩
    · rcases hcase' with ⟨hx',_⟩|⟨_,hy',hz'⟩
      · rw [hx,hx']
      · exact absurd (hz'.symm.trans (hab.symm.trans hy)) hy'
    · rcases hcase' with ⟨_,hy'⟩|⟨_,_,hz'⟩
      · exact absurd (hz.symm.trans (hab.trans hy')) hy
      · rw [←hz,←hz',hab]
  · intro h hl
    obtain ⟨name,hn⟩ := ho.owner_of h hl
    by_cases hs : name=source
    · exact ⟨target,by rw [Function.update_self,←hs,hn]⟩
    · have hnt : name≠target := by
        rintro rfl
        exact absurd (ht.symm.trans hn) (Option.some_ne_none h).symm
      exact ⟨name,by rw [Function.update_of_ne hnt,Function.update_of_ne hs,hn]⟩

section Actions

variable {kind : Kind D} {w v : World V H D}

omit [DecidableEq H] in
/-- What a name owns when its object has been replaced. -/
theorem handleOf_update (w : World V H D) (name : V) (o : Option (Owner H D))
    (live : H → Bool) :
    (⟨Function.update w.objects name o,live⟩ : World V H D).handleOf=
      Function.update w.handleOf name (o.bind Owner.handle) := by
  funext other
  by_cases he : other=name
  · rw [he,Function.update_self]
    change (Function.update w.objects name o name).bind Owner.handle=_
    rw [Function.update_self]
  · rw [Function.update_of_ne he]
    change (Function.update w.objects name o other).bind Owner.handle=_
    rw [Function.update_of_ne he]
    rfl

omit [DecidableEq H] in
/-- What names own when an object has been moved. -/
theorem handleOf_moved {o : Owner H D} (hs : w.objects source=some o) (live : H → Bool) :
    (⟨moved kind w.objects target source o,live⟩ : World V H D).handleOf=
      Function.update (Function.update w.handleOf source none) target (w.handleOf source) := by
  have hh : w.handleOf source=o.handle := by rw [World.handleOf,hs,Option.bind_some]
  have hinner := handleOf_update w source (some ⟨none,kind.leaves o.data⟩) live
  have houter := handleOf_update
    (⟨Function.update w.objects source (some ⟨none,kind.leaves o.data⟩),live⟩ : World V H D)
    target (some o) live
  rw [hinner,Option.bind_some,Option.bind_some] at houter
  rw [hh]
  exact houter

/-- An allowed action makes no error and keeps the invariant. -/
theorem act_owned (ho : Owned w.handleOf w.live) {a : Action V H D} (ha : Allowed w a) :
    ∃ v, act kind w a=some v ∧ Owned v.handleOf v.live := by
  have hnothing : ∀ name, w.objects name=none → w.handleOf name=none := by
    intro name hn
    rw [World.handleOf,hn,Option.bind_none]
  cases a with
  | construct target made =>
    obtain ⟨ht,hf⟩ := ha
    cases made with
    | none => exact ⟨w,rfl,ho⟩
    | some o =>
      refine ⟨_,rfl,?_⟩
      rw [handleOf_update,Option.bind_some]
      exact ho.taken (hnothing target ht) (hf o rfl)
  | moveConstruct target source =>
    obtain ⟨ht,hs⟩ := ha
    obtain ⟨o,hs'⟩ := Option.ne_none_iff_exists'.mp hs
    have hne : target≠source := by
      rintro rfl
      exact hs ht
    refine ⟨⟨moved kind w.objects target source o,w.live⟩,by rw [act,hs',Option.map_some],?_⟩
    rw [handleOf_moved hs']
    exact ho.passed (hnothing target ht) hne
  | moveAssign target source =>
    obtain ⟨_,hs⟩ := ha
    by_cases hne : target=source
    · exact ⟨w,if_pos hne,ho⟩
    obtain ⟨o,hs'⟩ := Option.ne_none_iff_exists'.mp hs
    obtain ⟨left,hl,hleft⟩ := ho.released target
    refine ⟨⟨moved kind w.objects target source o,left⟩,?_,?_⟩
    · rw [act,if_neg hne,hs',Option.bind_some,hl,Option.map_some]
    · have hsource : Function.update w.handleOf target none source=w.handleOf source :=
        Function.update_of_ne (Ne.symm hne) _ _
      have hpassed := hleft.passed (Function.update_self target none w.handleOf) hne
      rw [hsource,Function.update_comm hne,Function.update_idem] at hpassed
      rw [handleOf_moved hs']
      exact hpassed
  | destruct target =>
    obtain ⟨left,hl,hleft⟩ := ho.released target
    refine ⟨⟨Function.update w.objects target none,left⟩,by rw [act,hl,Option.map_some],?_⟩
    rw [handleOf_update,Option.bind_none]
    exact hleft

/-- What holds of every object when it is constructed, and of one that has been
moved from, holds of every object. -/
theorem act_objects {P : Owner H D → Prop} (hleaves : ∀ o, P o → P ⟨none,kind.leaves o.data⟩)
    (hw : ∀ name o, w.objects name=some o → P o) {a : Action V H D}
    (hmade : ∀ target o, a=.construct target (some o) → P o) (h : act kind w a=some v) :
    ∀ name o, v.objects name=some o → P o := by
  have hmoved : ∀ {target source : V} {o : Owner H D}, w.objects source=some o →
      ∀ name p, moved kind w.objects target source o name=some p → P p := by
    intro target source o hs name p hp
    by_cases ht : name=target
    · rw [moved,ht,Function.update_self] at hp
      exact Option.some.inj hp ▸ hw source o hs
    · rw [moved,Function.update_of_ne ht] at hp
      by_cases he : name=source
      · rw [he,Function.update_self] at hp
        exact Option.some.inj hp ▸ hleaves o (hw source o hs)
      · rw [Function.update_of_ne he] at hp
        exact hw name p hp
  cases a with
  | construct target made =>
    cases made with
    | none => exact Option.some.inj h ▸ hw
    | some o =>
      rw [←Option.some.inj h]
      intro name p hp
      by_cases ht : name=target
      · simp only [ht,Function.update_self] at hp
        exact Option.some.inj hp ▸ hmade target o rfl
      · simp only [Function.update_of_ne ht] at hp
        exact hw name p hp
  | moveConstruct target source =>
    obtain ⟨o,hs,he⟩ := Option.map_eq_some_iff.mp h
    rw [←he]
    exact hmoved hs
  | moveAssign target source =>
    by_cases hne : target=source
    · rw [act,if_pos hne] at h
      exact Option.some.inj h ▸ hw
    · rw [act,if_neg hne] at h
      obtain ⟨o,hs,hb⟩ := Option.bind_eq_some_iff.mp h
      obtain ⟨left,_,he⟩ := Option.map_eq_some_iff.mp hb
      rw [←he]
      exact hmoved hs
  | destruct target =>
    obtain ⟨left,_,he⟩ := Option.map_eq_some_iff.mp h
    rw [←he]
    intro name p hp
    by_cases ht : name=target
    · simp only [ht,Function.update_self] at hp
      exact absurd hp (Option.some_ne_none p).symm
    · simp only [Function.update_of_ne ht] at hp
      exact hw name p hp

/-- The invariant holds in every run. -/
theorem reaches_owned (h : (ownedMachine (V := V) (H := H) kind).Reaches w) :
    Owned w.handleOf w.live := by
  refine h.invariant (P := fun w => Owned w.handleOf w.live) ?_ ?_
  · rintro w ⟨ho,hl⟩
    have hnone : w.handleOf=fun _ => none := by
      funext name
      rw [World.handleOf,ho]
      rfl
    rw [hnone,hl]
    exact ⟨fun _ h hn => absurd hn.symm (Option.some_ne_none h),
      fun _ _ h hn => absurd hn.symm (Option.some_ne_none h),
      fun _ hl => absurd hl Bool.false_ne_true⟩
  · rintro w a v hw ⟨ha,hv⟩
    obtain ⟨u,hu,hou⟩ : ∃ u, act kind w a=some u ∧ Owned u.handleOf u.live := act_owned hw ha
    exact Option.some.inj (hu.symm.trans hv) ▸ hou

/-- No action that is allowed releases a handle that is not live, and the live handles
are those owned, each by one object: so none is live when no object is. -/
def Safe (kind : Kind D) (w : World V H D) : Prop :=
  (∀ a : Action V H D, Allowed w a → ∃ v, act kind w a=some v) ∧
    (∀ h, w.live h=true ↔ ∃! name, w.handleOf name=some h) ∧
    ((∀ name, w.objects name=none) → ∀ h, w.live h=false)

/-- The invariant is safety. -/
theorem Owned.safe (ho : Owned w.handleOf w.live) : Safe kind w := by
  refine ⟨fun a ha => ?_,fun h => ⟨fun hl => ?_,?_⟩,fun hn h => ?_⟩
  · obtain ⟨v,hv,_⟩ : ∃ v, act kind w a=some v ∧ Owned v.handleOf v.live := act_owned ho ha
    exact ⟨v,hv⟩
  · obtain ⟨name,hn⟩ := ho.owner_of h hl
    exact ⟨name,hn,fun other hm => ho.unique other name h hm hn⟩
  · rintro ⟨name,hn,_⟩
    exact ho.live_of name h hn
  · by_contra hl
    obtain ⟨name,hh⟩ := ho.owner_of h (Bool.eq_true_of_not_eq_false hl)
    rw [World.handleOf,hn name,Option.bind_none] at hh
    exact Option.some_ne_none h hh.symm

end Actions

end CudaForge.OwnedHandles
