import Mathlib.Data.Int.CardIntervalMod
import Mathlib.Tactic

/-!
# Turns around a circle

A hand goes around the places of a circle. In a turn it moves on until it has
passed a member, and that member gets the turn. Turns among the same members go
around them in order, so no member is ever two turns ahead of another.
-/

namespace CudaForge.CyclicTurns

/-- The hand moves on, by at most so many places, until it has passed a member:
the member, if there was one, and where the hand is then. -/
def turn (size : ℕ) (members : List ℕ) : ℕ → ℕ → Option ℕ×ℕ
  | 0,hand => (none,hand)
  | moves+1,hand =>
    if hand∈members then (some hand,(hand+1)%size) else turn size members moves ((hand+1)%size)

/-- Members counted around the circle. -/
def member (members : List ℕ) (count : ℕ) : ℕ := members.getD (count%members.length) 0

/-- Turns that follow one another from a place of the hand. -/
def Follows (size : ℕ) (members : List ℕ) : ℕ → List ℕ → Prop
  | _,[] => True
  | hand,pick::picks => turn size members size hand=(some pick,(pick+1)%size) ∧
      Follows size members ((pick+1)%size) picks

section Turns

variable {size : ℕ} {members : List ℕ} {hand moves distance : ℕ}

/-- The member nearest ahead gets the turn. -/
theorem turn_nearest (hh : hand<size) (hm : (hand+distance)%size∈members)
    (hn : ∀ d < distance, (hand+d)%size∉members) (hd : distance < moves) :
    turn size members moves hand=
      (some ((hand+distance)%size),((hand+distance)%size+1)%size) := by
  induction moves generalizing hand distance with
  | zero => exact absurd hd (Nat.not_lt_zero _)
  | succ moves ih =>
    rw [turn]
    cases distance with
    | zero =>
      simp only [Nat.add_zero,Nat.mod_eq_of_lt hh] at hm ⊢
      exact if_pos hm
    | succ distance =>
      have hfar : hand∉members := by
        have h0 := hn 0 (Nat.succ_pos distance)
        rwa [Nat.add_zero,Nat.mod_eq_of_lt hh] at h0
      have hmod : ∀ d, ((hand+1)%size+d)%size=(hand+(d+1))%size := by
        intro d
        rw [Nat.mod_add_mod,Nat.add_assoc,Nat.add_comm 1 d]
      have hnext := @ih ((hand+1)%size) distance
        (Nat.mod_lt _ (Nat.zero_lt_of_lt hh)) (by rwa [hmod])
        (fun d hlt => by rw [hmod]; exact hn (d+1) (Nat.succ_lt_succ hlt))
        (Nat.lt_of_succ_lt_succ hd)
      rw [if_neg hfar,hnext,hmod]

/-- Once around, the hand passes a member. -/
theorem turn_succeeds (hne : members≠[]) (hlt : ∀ place∈members, place<size) (hh : hand<size) :
    ∃ place∈members, turn size members size hand=(some place,(place+1)%size) := by
  obtain ⟨place,hm⟩ := List.exists_mem_of_ne_nil members hne
  have hreach : (hand+(place+size-hand)%size)%size=place := by
    rw [Nat.add_mod_mod,Nat.add_sub_cancel' (by omega),Nat.add_mod_right,
      Nat.mod_eq_of_lt (hlt place hm)]
  have hex : ∃ d, (hand+d)%size∈members := ⟨_,hreach.symm ▸ hm⟩
  have hfirst : Nat.find hex<size :=
    (Nat.find_min' hex (hreach.symm ▸ hm)).trans_lt (Nat.mod_lt _ (Nat.zero_lt_of_lt hh))
  exact ⟨_,Nat.find_spec hex,
    turn_nearest hh (Nat.find_spec hex) (fun d hd => Nat.find_min hex hd) hfirst⟩

end Turns

section Members

variable {size : ℕ} {members : List ℕ} {i j : ℕ}

/-- A count below the number of members is a position. -/
theorem member_eq (hi : i < members.length) : member members i=members[i] := by
  rw [member,Nat.mod_eq_of_lt hi,List.getD_eq_getElem?_getD,List.getElem?_eq_getElem hi,
    Option.getD_some]

/-- Whatever the count, it is a member. -/
theorem member_mem (hne : members≠[]) (count : ℕ) : member members count∈members := by
  have hlt : count%members.length < members.length :=
    Nat.mod_lt _ (List.length_pos_iff.mpr hne)
  rw [member,List.getD_eq_getElem?_getD,List.getElem?_eq_getElem hlt,Option.getD_some]
  exact List.getElem_mem hlt

/-- Every member has a position. -/
theorem exists_member {place : ℕ} (hm : place∈members) :
    ∃ i < members.length, member members i=place := by
  obtain ⟨i,hi,he⟩ := List.mem_iff_getElem.mp hm
  exact ⟨i,hi,(member_eq hi).trans he⟩

/-- Members in order stand in the order of their positions. -/
theorem member_lt_iff (hs : members.Pairwise (·<·)) (hi : i < members.length)
    (hj : j < members.length) : member members i < member members j ↔ i<j := by
  have hmono : ∀ {i j}, i < members.length → j < members.length → i<j →
      member members i < member members j := by
    intro i j hi hj hlt
    rw [member_eq hi,member_eq hj]
    exact List.pairwise_iff_getElem.mp hs i j hi hj hlt
  constructor
  · intro h
    by_contra hle
    rcases Nat.lt_or_eq_of_le (Nat.le_of_not_lt hle) with hlt | rfl
    · exact absurd (hmono hj hi hlt) (Nat.lt_asymm h)
    · exact Nat.lt_irrefl _ h
  · exact hmono hi hj

/-- The position after a position, around the circle. -/
theorem member_succ (count : ℕ) :
    member members (count%members.length+1)=member members (count+1) := by
  rw [member,member,Nat.mod_add_mod]

/-- After a member's turn comes the turn of the next one. -/
theorem turn_next (hs : members.Pairwise (·<·)) (hlt : ∀ place∈members, place<size)
    (hne : members≠[]) (count : ℕ) :
    turn size members size ((member members count+1)%size)=
      (some (member members (count+1)),(member members (count+1)+1)%size) := by
  have hpos : 0 < members.length := List.length_pos_iff.mpr hne
  have hmod : member members (count%members.length)=member members count := by
    rw [member,member,Nat.mod_mod]
  rw [←hmod,←member_succ count]
  have hi := Nat.mod_lt count hpos
  generalize count%members.length=i at hi
  have ha : member members i<size := hlt _ (member_mem hne i)
  have hb : member members (i+1)<size := hlt _ (member_mem hne (i+1))
  have hshift : ∀ d, ((member members i+1)%size+d)%size=(member members i+1+d)%size :=
    fun d => Nat.mod_add_mod _ _ _
  have hh : (member members i+1)%size<size := Nat.mod_lt _ (Nat.zero_lt_of_lt ha)
  by_cases hlast : i+1 < members.length
  · -- no member lies between two neighbours
    have hab : member members i < member members (i+1) :=
      (member_lt_iff hs hi hlast).mpr (Nat.lt_succ_self i)
    have hd : (member members i+1+(member members (i+1)-member members i-1))%size=
        member members (i+1) := by
      rw [show member members i+1+(member members (i+1)-member members i-1)=
        member members (i+1) by omega,Nat.mod_eq_of_lt hb]
    have h := @turn_nearest size members ((member members i+1)%size) size
      (member members (i+1)-member members i-1) hh
      (by rw [hshift,hd]; exact member_mem hne _) ?_ (by omega)
    · rwa [hshift,hd] at h
    · intro d hlt' hm
      rw [hshift,Nat.mod_eq_of_lt (by omega)] at hm
      obtain ⟨j,hj,he⟩ := exists_member hm
      have hij := (member_lt_iff hs hi hj).mp (by omega)
      have hji := (member_lt_iff hs hj hlast).mp (by omega)
      omega
  · -- behind the last member the hand goes on to the first
    have hzero : member members (i+1)=member members 0 := by
      rw [member,member,show i+1=members.length by omega,Nat.mod_self,Nat.zero_mod]
    rw [hzero] at hb ⊢
    have hle : member members 0 ≤ member members i := by
      by_contra hn
      have h0 := (member_lt_iff hs hi hpos).mp (Nat.lt_of_not_le hn)
      exact Nat.not_lt_zero i h0
    have hd : (member members i+1+(size-1-member members i+member members 0))%size=
        member members 0 := by
      rw [show member members i+1+(size-1-member members i+member members 0)=
        member members 0+size by omega,Nat.add_mod_right,Nat.mod_eq_of_lt hb]
    have h := @turn_nearest size members ((member members i+1)%size) size
      (size-1-member members i+member members 0) hh
      (by rw [hshift,hd]; exact member_mem hne _) ?_ (by omega)
    · rwa [hshift,hd] at h
    · intro d hlt' hm
      rw [hshift] at hm
      obtain ⟨j,hj,he⟩ := exists_member hm
      by_cases hwrap : member members i+1+d<size
      · rw [Nat.mod_eq_of_lt hwrap] at he
        have hij := (member_lt_iff hs hi hj).mp (by omega)
        omega
      · have hsub : (member members i+1+d)%size=member members i+1+d-size := by
          rw [Nat.mod_eq_sub_mod (by omega),Nat.mod_eq_of_lt (by omega)]
        have hj0 := (member_lt_iff hs hj hpos).mp (by omega)
        exact Nat.not_lt_zero j hj0

variable {picks : List ℕ} {hand : ℕ}

/-- From behind a member on, the turns go around. -/
theorem Follows.from_member (hs : members.Pairwise (·<·)) (hlt : ∀ place∈members, place<size)
    (hne : members≠[]) {count : ℕ}
    (h : Follows size members ((member members count+1)%size) picks) :
    picks=(List.range picks.length).map (fun k => member members (count+1+k)) := by
  induction picks generalizing count with
  | nil => rfl
  | cons pick picks ih =>
    obtain ⟨ht,hrest⟩ := h
    rw [turn_next hs hlt hne] at ht
    have hp : member members (count+1)=pick := Option.some.inj (congrArg Prod.fst ht)
    rw [←hp] at hrest
    rw [List.length_cons,List.range_succ_eq_map,List.map_cons,List.map_map,Nat.add_zero,hp]
    refine congrArg (pick::·) ((ih hrest).trans (List.map_congr_left fun k _ => ?_))
    rw [Function.comp_apply,Nat.add_assoc (count+1),Nat.add_comm 1 k]

/-- Turns among the same members go around them. -/
theorem Follows.goes_around (hs : members.Pairwise (·<·))
    (hlt : ∀ place∈members, place<size) (hne : members≠[]) (hh : hand<size)
    (h : Follows size members hand picks) :
    ∃ first, picks=(List.range picks.length).map (fun k => member members (first+k)) := by
  cases picks with
  | nil => exact ⟨0,rfl⟩
  | cons pick picks =>
    obtain ⟨ht,hrest⟩ := h
    obtain ⟨place,hm,he⟩ := turn_succeeds hne hlt hh
    obtain ⟨i,hi,hp⟩ := exists_member hm
    have hpick : place=pick := Option.some.inj (congrArg Prod.fst (he.symm.trans ht))
    rw [←hpick,←hp] at hrest
    refine ⟨i,?_⟩
    rw [List.length_cons,List.range_succ_eq_map,List.map_cons,List.map_map,Nat.add_zero,
      hp,hpick]
    refine congrArg (pick::·) ((hrest.from_member hs hlt hne).trans
      (List.map_congr_left fun k _ => ?_))
    rw [Function.comp_apply,Nat.add_assoc i,Nat.add_comm 1 k]

/-- How often a member has its turn in so many turns. -/
theorem count_member (hs : members.Pairwise (·<·)) (hi : i < members.length)
    (first turns : ℕ) :
    ∃ extra ≤ 1, ((List.range turns).map (fun k => member members (first+k))).count
      (member members i)=turns/members.length+extra := by
  have hpos : 0 < members.length := Nat.zero_lt_of_lt hi
  set m := members.length with hm
  have hsame : ∀ k, member members (first+k)=member members i ↔ (first+k)%m=i := by
    intro k
    have hj : (first+k)%m < m := Nat.mod_lt _ hpos
    have hk : member members ((first+k)%m)=member members (first+k) := by
      rw [member,member,Nat.mod_mod]
    constructor
    · intro h
      rw [←hk] at h
      have hij := (member_lt_iff hs hi hj).not.mp h.not_gt
      have hji := (member_lt_iff hs hj hi).not.mp h.not_lt
      omega
    · intro h
      rw [←hk,h]
  have hcongr : ∀ k, (first+k)%m=i ↔ k ≡ i+m*first-first [MOD m] := by
    intro k
    have hle : first ≤ m*first := Nat.le_mul_of_pos_left _ hpos
    rw [←Nat.ModEq.add_iff_left (Nat.ModEq.refl first)]
    rw [show first+(i+m*first-first)=i+m*first by omega,Nat.ModEq,Nat.add_mul_mod_self_left,
      Nat.mod_eq_of_lt hi]
  have hcount : ((List.range turns).map (fun k => member members (first+k))).count
      (member members i)=turns.count (· ≡ i+m*first-first [MOD m]) := by
    rw [List.count_eq_countP,List.countP_map,Nat.count]
    refine List.countP_congr fun k _ => ?_
    rw [Function.comp_apply,beq_iff_eq,decide_eq_true_iff,hsame,hcongr]
  rw [hcount,Nat.count_modEq_card _ hpos]
  split
  · exact ⟨1,Nat.le_refl 1,rfl⟩
  · exact ⟨0,Nat.zero_le 1,rfl⟩

/-- No member is two turns ahead of another. -/
theorem count_balanced (hs : members.Pairwise (·<·)) (first turns : ℕ) {a b : ℕ}
    (ha : a∈members) (hb : b∈members) :
    ((List.range turns).map (fun k => member members (first+k))).count a ≤
      ((List.range turns).map (fun k => member members (first+k))).count b+1 := by
  obtain ⟨i,hi,rfl⟩ := exists_member ha
  obtain ⟨j,hj,rfl⟩ := exists_member hb
  obtain ⟨x,hx,hcx⟩ := count_member hs hi first turns
  obtain ⟨y,hy,hcy⟩ := count_member hs hj first turns
  rw [hcx,hcy]
  omega

end Members

end CudaForge.CyclicTurns
