import CudaForge.BlockTurns

/-!
# Turns at which the largest holder gives way

When the first of the largest other holders gives way to a key that asks and
finds no block, a row of turns is clean exactly when pairs of keys, all
different, can be named beforehand. Each pair is placed by counting: up to the
turn of its first the free blocks and those of the pairs before it are just
used up, and its second is then the first of the largest. What each key holds
and takes up to a turn is read off the order and the stock before any turn.
-/

namespace CudaForge.LargestTurns

open EvictionOrder BlockTurns

variable {κ : Type} [DecidableEq κ]

/-- The keys that have their turn before this one. -/
def ahead (order : List κ) (k : κ) : List κ := order.takeWhile (fun other => decide (other≠k))

/-- The first of the largest other holders of an order. -/
def largest (order : List κ) (held : κ → ℕ) (k : κ) : Option κ :=
  (largestFirst held (order.filter (fun other => decide (other≠k)))).head?

/-- What a key that has not given way holds at the turn of `k`: one block more
than before, if its own turn came earlier and it asked. -/
def grown (b : Stock κ) (order : List κ) (k other : κ) : ℕ :=
  b.held other+(decide (other∈ahead order k)&&b.asks other).toNat

/-- A key takes a block at its turn: it asks, or it has given way before. -/
def takes (b : Stock κ) (order : List κ) (given : List (κ×κ)) (other : κ) : Bool :=
  b.asks other||given.any (fun pair => decide (pair.2=other ∧ other∉ahead order pair.1))

/-- The blocks that these keys take at their turns. -/
def taken (b : Stock κ) (order : List κ) (given : List (κ×κ)) (turns : List κ) : ℕ :=
  turns.countP (takes b order given)

/-- The free blocks and those given. -/
def supply (b : Stock κ) (order : List κ) (given : List (κ×κ)) : ℕ :=
  b.free+(given.map (fun pair => grown b order pair.1 pair.2)).sum

/-- After what was given so far `k` is the next that finds no block, and `v`
the first of the largest others that have not given way. -/
structure Due (b : Stock κ) (order : List κ) (given : List (κ×κ)) (k v : κ) : Prop where
  asks : b.asks k=true
  used_up : taken b order given (ahead order k)=supply b order given
  first_largest : ∀ other∈order, other≠k → other∉given.map Prod.snd →
    grown b order k other<grown b order k v ∨
      grown b order k other=grown b order k v ∧ other∉ahead order v

/-- Pairs that go on with those given before, in the order of these turns, up
to the end. -/
structure GoesOn (b : Stock κ) (order : List κ) (given : List (κ×κ)) (turns : List κ)
    (later : List (κ×κ)) : Prop where
  in_turn : (later.map Prod.fst).Sublist turns
  holders : ∀ pair∈later, pair.2∈order
  /-- Nobody stands in them twice. -/
  apart : ((given++later).map Prod.snd++(given++later).map Prod.fst).Nodup
  due : ∀ front k v back, later=front++(k,v)::back → Due b order (given++front) k v
  /-- What they give covers everyone to the end. -/
  enough : taken b order (given++later) order ≤ supply b order (given++later)

/-- The foresight when the largest holder gives way: such pairs exist. -/
def LargestCovers (b : Stock κ) (order : List κ) : Prop :=
  ∃ given, GoesOn b order [] order given

section Ahead

variable {done rest order : List κ} {k other v w : κ}

theorem ahead_append (hk : k∉done) : ahead (done++k::rest) k=done := by
  rw [ahead,List.takeWhile_append_of_pos,List.takeWhile_cons_of_neg,List.append_nil]
  · simp only [ne_eq,not_true,decide_false,Bool.false_eq_true,not_false_eq_true]
  · exact fun other hm => decide_eq_true (fun he => hk (he ▸ hm))

theorem ahead_cons_ne (hn : k≠v) : ahead (k::rest) v=k::ahead rest v :=
  List.takeWhile_cons_of_pos (decide_eq_true hn)

theorem ahead_cons_self : ahead (k::rest) k=[] :=
  @ahead_append κ _ [] rest k List.not_mem_nil

/-- Of two keys one comes before the other. -/
theorem ahead_total (hv : v∈order) (hw : w∈order) (hvw : v∉ahead order w)
    (hwv : w∉ahead order v) : v=w := by
  induction order with
  | nil => exact absurd hv List.not_mem_nil
  | cons first rest ih =>
    by_cases hfv : first=v
    · by_cases hfw : first=w
      · exact hfv.symm.trans hfw
      · rw [ahead_cons_ne hfw,hfv] at hvw
        exact absurd List.mem_cons_self hvw
    · by_cases hfw : first=w
      · rw [ahead_cons_ne hfv,hfw] at hwv
        exact absurd List.mem_cons_self hwv
      · rw [ahead_cons_ne hfw,List.mem_cons,not_or] at hvw
        rw [ahead_cons_ne hfv,List.mem_cons,not_or] at hwv
        exact ih ((List.mem_cons.mp hv).resolve_left (Ne.symm hfv))
          ((List.mem_cons.mp hw).resolve_left (Ne.symm hfw)) hvw.2 hwv.2

/-- Leaving out a key keeps the others in front. -/
theorem mem_ahead_filter (hn : other≠k) (hm : other∈ahead order v) :
    other∈ahead (order.filter (fun other => decide (other≠k))) v := by
  induction order with
  | nil => exact absurd hm List.not_mem_nil
  | cons first rest ih =>
    by_cases hf : first=v
    · rw [hf,ahead_cons_self] at hm
      exact absurd hm List.not_mem_nil
    · rw [ahead_cons_ne hf] at hm
      by_cases hk : first=k
      · rw [List.filter_cons_of_neg (by simp only [hk,ne_eq,not_true,decide_false,
          Bool.false_eq_true,not_false_eq_true])]
        exact ih ((List.mem_cons.mp hm).resolve_left (fun he => hn (he.trans hk)))
      · rw [List.filter_cons_of_pos (p := fun other => decide (other≠k)) (decide_eq_true hk),
          ahead_cons_ne hf]
        exact List.mem_cons.mpr ((List.mem_cons.mp hm).imp id ih)

end Ahead

section Largest

variable {order : List κ} {held : κ → ℕ} {k v other : κ}

/-- The head of the line of the largest is the first of the largest. -/
theorem largestFirst_head (hh : (largestFirst held order).head?=some v) :
    v∈order ∧ 0<held v ∧
      ∀ other∈order, held other<held v ∨ held other=held v ∧ other∉ahead order v := by
  induction order generalizing v with
  | nil => exact absurd hh (by simp only [largestFirst,List.filter_nil,List.insertionSort_nil,
      List.head?_nil,reduceCtorEq,not_false_eq_true])
  | cons first rest ih =>
    rw [largestFirst_cons_head] at hh
    by_cases hf : 0<held first
    · rw [if_pos hf] at hh
      cases hr : (largestFirst held rest).head? with
      | none =>
        rw [hr,better] at hh
        obtain rfl := Option.some.inj hh
        refine ⟨List.mem_cons_self,hf,?_⟩
        intro other hm
        rcases List.mem_cons.mp hm with rfl | hm
        · exact .inr ⟨rfl,by rw [ahead_cons_self]; exact List.not_mem_nil⟩
        · refine .inl (Nat.lt_of_not_le fun hle => ?_)
          have hl := mem_largestFirst.mpr ⟨hm,hf.trans_le hle⟩
          rw [List.head?_eq_none_iff.mp hr] at hl
          exact absurd hl List.not_mem_nil
      | some c =>
        obtain ⟨hc,hpos,hmax⟩ := ih hr
        rw [hr,better] at hh
        by_cases hlt : held first<held c
        · rw [if_pos hlt] at hh
          obtain rfl := Option.some.inj hh
          refine ⟨List.mem_cons_of_mem _ hc,hpos,?_⟩
          intro other hm
          by_cases he : other=first
          · exact .inl (he ▸ hlt)
          · have hne : first≠c := fun he => Nat.lt_irrefl _ (he ▸ hlt)
            rw [ahead_cons_ne hne,List.mem_cons,not_or]
            exact (hmax other ((List.mem_cons.mp hm).resolve_left he)).imp id
              (fun h => ⟨h.1,he,h.2⟩)
        · rw [if_neg hlt] at hh
          obtain rfl := Option.some.inj hh
          refine ⟨List.mem_cons_self,hf,?_⟩
          intro other hm
          have hle : held other≤held first := by
            rcases List.mem_cons.mp hm with rfl | hm
            · exact Nat.le_refl _
            · rcases hmax other hm with h | h <;> omega
          rcases Nat.lt_or_eq_of_le hle with h | h
          · exact .inl h
          · exact .inr ⟨h,by rw [ahead_cons_self]; exact List.not_mem_nil⟩
    · rw [if_neg hf] at hh
      obtain ⟨hv,hpos,hmax⟩ := ih hh
      refine ⟨List.mem_cons_of_mem _ hv,hpos,?_⟩
      intro other hm
      by_cases he : other=first
      · exact .inl (he ▸ by omega)
      · have hne : first≠v := fun he => hf (he ▸ hpos)
        rw [ahead_cons_ne hne,List.mem_cons,not_or]
        exact (hmax other ((List.mem_cons.mp hm).resolve_left he)).imp id
          (fun h => ⟨h.1,he,h.2⟩)

theorem largest_spec (hc : largest order held k=some v) :
    v∈order ∧ v≠k ∧ 0<held v ∧
      ∀ other∈order, other≠k → held other<held v ∨ held other=held v ∧ other∉ahead order v := by
  obtain ⟨hv,hpos,hmax⟩ := largestFirst_head hc
  obtain ⟨hv,hn⟩ := List.mem_filter.mp hv
  refine ⟨hv,of_decide_eq_true hn,hpos,fun other hm hne => ?_⟩
  exact (hmax other (List.mem_filter.mpr ⟨hm,decide_eq_true hne⟩)).imp id
    (fun h => ⟨h.1,fun ha => h.2 (mem_ahead_filter hne ha)⟩)

/-- Somebody gives way where another key holds a block. -/
theorem largest_ne_none (hm : other∈order) (hn : other≠k) (hh : 0<held other) :
    largest order held k≠none := by
  intro hc
  have hf : other∈order.filter (fun other => decide (other≠k)) :=
    List.mem_filter.mpr ⟨hm,decide_eq_true hn⟩
  have hl := mem_largestFirst.mpr ⟨hf,hh⟩
  rw [List.head?_eq_none_iff.mp hc] at hl
  exact absurd hl List.not_mem_nil

end Largest

/-- Turns of which these pairs are the account: what the keys hold and ask, in
terms of what they held and asked before. -/
structure Accounts (b₀ : Stock κ) (order done : List κ) (given : List (κ×κ)) (b : Stock κ)
    (victims evictors : List κ) : Prop where
  free_eq : b.free+taken b₀ order given done=supply b₀ order given
  /-- Whoever has not given way holds what he held, and his new block. -/
  kept_held : ∀ other∉given.map Prod.snd,
    b.held other=b₀.held other+(decide (other∈done)&&b₀.asks other).toNat
  gone_held : ∀ other∈given.map Prod.snd, b.held other≤(decide (other∈done)).toNat
  asks_eq : ∀ other∉done, b.asks other=takes b₀ order given other
  payers_done : ∀ pair∈given, pair.1∈done ∧ b₀.asks pair.1=true
  apart : (given.map Prod.snd++given.map Prod.fst).Nodup
  mem_victims : ∀ other, other∈victims ↔ other∈given.map Prod.snd
  mem_evictors : ∀ other, other∈evictors ↔ other∈given.map Prod.fst

section Account

variable {order done rest victims evictors : List κ} {given later : List (κ×κ)} {b₀ b : Stock κ}
variable {k v other : κ}

/-- Whoever has not given way takes a block when he asks. -/
theorem takes_kept (hn : other∉given.map Prod.snd) :
    takes b₀ order given other=b₀.asks other := by
  rw [takes,Bool.or_eq_left_iff_imp]
  intro h
  obtain ⟨pair,hm,hp⟩ := List.any_eq_true.mp h
  exact absurd (List.mem_map.mpr ⟨pair,hm,(of_decide_eq_true hp).1⟩) hn

/-- Giving way once more concerns one key, and it only behind the turn. -/
theorem takes_concat (ho : order=done++k::rest) (hk : k∉done) :
    takes b₀ order (given++[(k,v)]) other=
      (takes b₀ order given other||decide (v=other ∧ other∉done)) := by
  rw [takes,takes,List.any_append,Bool.or_assoc,List.any_cons,List.any_nil,Bool.or_false,
    ho,ahead_append hk]

/-- Nobody has had a turn. -/
theorem Accounts.start (b : Stock κ) (order : List κ) : Accounts b order [] [] b [] [] where
  free_eq := rfl
  kept_held _ _ := by rw [decide_eq_false List.not_mem_nil,Bool.false_and,Bool.toNat_false,
    Nat.add_zero]
  gone_held _ h := absurd h List.not_mem_nil
  asks_eq _ _ := by rw [takes,List.any_nil,Bool.or_false]
  payers_done _ h := absurd h List.not_mem_nil
  apart := List.nodup_nil
  mem_victims _ := Iff.rfl
  mem_evictors _ := Iff.rfl

/-- One more turn takes what its key takes. -/
theorem taken_concat (turns : List κ) : taken b₀ order given (turns++[k])=
    taken b₀ order given turns+(takes b₀ order given k).toNat := by
  rw [taken,List.countP_append,List.countP_singleton]
  cases takes b₀ order given k <;> rfl

/-- A turn with a block to spare. -/
theorem Accounts.serve (h : Accounts b₀ order done given b victims evictors) (hk : k∉done)
    (hr : b.asks k=false ∨ 0<b.free) :
    Accounts b₀ order (done++[k]) given (b.serve k) victims evictors where
  free_eq := by
    have hf := h.free_eq
    rw [Stock.serve_free,taken_concat,←h.asks_eq k hk]
    rcases hr with hr | hr
    · rw [hr,Bool.toNat_false]
      omega
    · have := Bool.toNat_le (b.asks k)
      omega
  kept_held other hn := by
    by_cases he : other=k
    · subst he
      have hz : (decide (other∈done)&&b₀.asks other)=false := by
        rw [decide_eq_false hk,Bool.false_and]
      have ho : decide (other∈done++[other])=true :=
        decide_eq_true (List.mem_append_right _ (List.mem_singleton_self _))
      rw [Stock.serve_held_self,h.kept_held other hn,h.asks_eq other hk,takes_kept hn,hz,ho,
        Bool.toNat_false,Nat.add_zero,Bool.true_and]
    · rw [Stock.serve_held_ne b he,h.kept_held other hn]
      simp only [List.mem_append,List.mem_singleton,he,or_false]
  gone_held other hm := by
    have hh := h.gone_held other hm
    by_cases he : other=k
    · subst he
      rw [decide_eq_false hk,Bool.toNat_false] at hh
      rw [Stock.serve_held_self,
        decide_eq_true (List.mem_append_right _ (List.mem_singleton_self other)),Bool.toNat_true]
      have := Bool.toNat_le (b.asks other)
      omega
    · rw [Stock.serve_held_ne b he]
      simpa only [List.mem_append,List.mem_singleton,he,or_false] using hh
  asks_eq other hn := by
    rw [Stock.serve_asks]
    exact h.asks_eq other (fun hm => hn (List.mem_append_left _ hm))
  payers_done pair hm := (h.payers_done pair hm).imp_left (List.mem_append_left _)
  apart := h.apart
  mem_victims := h.mem_victims
  mem_evictors := h.mem_evictors

/-- At the turn of a key all that is done before it counts. -/
theorem grown_turn (ho : order=done++k::rest) (hk : k∉done) :
    grown b₀ order k other=b₀.held other+(decide (other∈done)&&b₀.asks other).toNat := by
  rw [grown,ho,ahead_append hk]

omit [DecidableEq κ] in
/-- Two keys more, and still nobody twice. -/
theorem apart_concat :
    ((given++[(k,v)]).map Prod.snd++(given++[(k,v)]).map Prod.fst).Nodup ↔
      v∉k::(given.map Prod.snd++given.map Prod.fst) ∧
        k∉given.map Prod.snd++given.map Prod.fst ∧
          (given.map Prod.snd++given.map Prod.fst).Nodup := by
  have hp : ((given++[(k,v)]).map Prod.snd++(given++[(k,v)]).map Prod.fst).Perm
      (v::k::(given.map Prod.snd++given.map Prod.fst)) := by
    rw [List.map_append,List.map_append,List.append_assoc]
    refine List.perm_middle.trans (List.Perm.cons v ?_)
    change (given.map Prod.snd++(given.map Prod.fst++[k])).Perm _
    rw [←List.append_assoc]
    exact List.perm_append_singleton k _
  rw [hp.nodup_iff,List.nodup_cons,List.nodup_cons]

/-- Giving way at a turn does not change what was taken before it. -/
theorem taken_given (ho : order=done++k::rest) (hk : k∉done) :
    taken b₀ order (given++[(k,v)]) done=taken b₀ order given done := by
  refine List.countP_congr (fun other hm => ?_)
  rw [takes_concat ho hk,decide_eq_false (fun h => h.2 hm),Bool.or_false]

/-- A turn at which somebody gives way who has not before. -/
theorem Accounts.displace (h : Accounts b₀ order done given b victims evictors)
    (ho : order=done++k::rest) (hk : k∉done) (ha : b₀.asks k=true) (hf : b.free=0)
    (hv : 0<b.held v)
    (hap : ((given++[(k,v)]).map Prod.snd++(given++[(k,v)]).map Prod.fst).Nodup) :
    Accounts b₀ order (done++[k]) (given++[(k,v)]) ((b.displace v).serve k) (v::victims)
      (k::evictors) := by
  obtain ⟨hvn,hkn,_⟩ := apart_concat.mp hap
  rw [List.mem_cons,not_or,List.mem_append,not_or] at hvn
  rw [List.mem_append,not_or] at hkn
  have hsnd : (given++[(k,v)]).map Prod.snd=given.map Prod.snd++[v] := List.map_append
  have hkv : k≠v := Ne.symm hvn.1
  have hka : (b.displace v).asks k=true := by
    rw [b.displace_asks_ne hkv,h.asks_eq k hk,takes,ha,Bool.true_or]
  have hkh : (b.displace v).held k=b₀.held k := by
    rw [b.displace_held_ne hkv,h.kept_held k hkn.1,decide_eq_false hk,Bool.false_and,
      Bool.toNat_false,Nat.add_zero]
  have hheld : ∀ other, other≠k → other≠v →
      ((b.displace v).serve k).held other=b.held other := fun other hn hne =>
    (Stock.serve_held_ne _ hn).trans (b.displace_held_ne hne)
  refine ⟨?_,?_,?_,?_,?_,hap,?_,?_⟩
  · have heq := h.free_eq
    have hs : supply b₀ order (given++[(k,v)])=supply b₀ order given+b.held v := by
      rw [supply,List.map_append,List.sum_append,List.map_singleton,List.sum_singleton,
        grown_turn ho hk,←h.kept_held v hvn.2.1,←Nat.add_assoc,supply]
    have ht : takes b₀ order (given++[(k,v)]) k=true := by rw [takes,ha,Bool.true_or]
    rw [Stock.serve_free,Stock.displace_free,hka,hs,taken_concat,taken_given ho hk,ht,
      Bool.toNat_true]
    omega
  · intro other hn
    rw [hsnd,List.mem_append,List.mem_singleton,not_or] at hn
    by_cases he : other=k
    · have hd : decide (k∈done++[k])=true :=
        decide_eq_true (List.mem_append_right _ (List.mem_singleton_self _))
      rw [he,Stock.serve_held_self,hka,hkh,hd,ha,Bool.true_and]
    · rw [hheld other he hn.2,h.kept_held other hn.1]
      simp only [List.mem_append,List.mem_singleton,he,or_false]
  · intro other hm
    rw [hsnd,List.mem_append,List.mem_singleton] at hm
    rcases hm with hm | hm
    · have he : other≠k := fun he => hkn.1 (he ▸ hm)
      rw [hheld other he (fun he => hvn.2.1 (he ▸ hm))]
      simpa only [List.mem_append,List.mem_singleton,he,or_false] using h.gone_held other hm
    · rw [hm,Stock.serve_held_ne _ hvn.1,b.displace_held_self]
      exact Nat.zero_le _
  · intro other hn
    rw [List.mem_append,List.mem_singleton,not_or] at hn
    rw [Stock.serve_asks,takes_concat ho hk]
    by_cases he : other=v
    · subst he
      rw [decide_eq_true ⟨rfl,hn.1⟩,Bool.or_true,b.displace_asks_self]
    · rw [decide_eq_false (fun h => he h.1.symm),Bool.or_false,←h.asks_eq other hn.1,
        b.displace_asks_ne he]
  · intro pair hm
    rcases List.mem_append.mp hm with hm | hm
    · exact (h.payers_done pair hm).imp_left (List.mem_append_left _)
    · rw [List.mem_singleton.mp hm]
      exact ⟨List.mem_append_right _ (List.mem_singleton_self _),ha⟩
  · intro other
    rw [hsnd,List.mem_cons,List.mem_append,List.mem_singleton,h.mem_victims,or_comm]
  · intro other
    rw [List.map_append,List.mem_cons,List.mem_append,h.mem_evictors,or_comm]
    exact or_congr_right List.mem_singleton.symm

/-- Where nothing is free somebody else holds a block who has not given way,
and two if anybody has. -/
theorem Accounts.holder (h : Accounts b₀ order done given b victims evictors)
    (hpos : ∀ k∈order, 0<b₀.held k) (hd : order.Nodup) (hlen : 1<order.length)
    (ho : order=done++k::rest) (hk : k∉done) :
    ∃ other∈order, other≠k ∧ 0<b.held other ∧ (given≠[] → 1<b.held other) := by
  rcases List.eq_nil_or_concat given with rfl | ⟨front,pair,rfl⟩
  · have hcard : 1<order.toFinset.card := by rwa [List.toFinset_card_of_nodup hd]
    obtain ⟨other,hm,hn⟩ := Finset.exists_mem_ne hcard k
    rw [List.mem_toFinset] at hm
    refine ⟨other,hm,hn,?_,fun hne => absurd rfl hne⟩
    rw [h.kept_held other List.not_mem_nil]
    exact Nat.lt_of_lt_of_le (hpos other hm) (Nat.le_add_right _ _)
  · rw [List.concat_eq_append] at h
    have hm : pair∈front++[pair] := List.mem_append_right _ (List.mem_singleton_self _)
    obtain ⟨hdone,hasks⟩ := h.payers_done pair hm
    have hnot : pair.1∉(front++[pair]).map Prod.snd := fun hs =>
      List.disjoint_of_nodup_append h.apart hs (List.mem_map_of_mem hm)
    have horder : pair.1∈order := ho ▸ List.mem_append_left _ hdone
    have hheld := h.kept_held pair.1 hnot
    rw [decide_eq_true hdone,hasks,Bool.true_and,Bool.toNat_true] at hheld
    have := hpos pair.1 horder
    exact ⟨pair.1,horder,fun he => hk (he ▸ hdone),by omega,fun _ => by omega⟩

/-- There whoever gives way is due. -/
theorem Accounts.choice (h : Accounts b₀ order done given b victims evictors)
    (hpos : ∀ k∈order, 0<b₀.held k) (hd : order.Nodup) (hlen : 1<order.length)
    (ho : order=done++k::rest) (hk : k∉done) (hf : b.free=0) :
    ∃ v, largest order b.held k=some v ∧ v∈order ∧ v≠k ∧ 0<b.held v ∧ v∉given.map Prod.snd ∧
      (b₀.asks k=true → Due b₀ order given k v) := by
  obtain ⟨other,hm,hn,hh,htwo⟩ := h.holder hpos hd hlen ho hk
  cases hc : largest order b.held k with
  | none => exact absurd hc (largest_ne_none hm hn hh)
  | some v =>
    obtain ⟨hv,hvk,hvh,hmax⟩ := largest_spec hc
    have hvg : v∉given.map Prod.snd := by
      intro hg
      have hle := (h.gone_held v hg).trans (Bool.toNat_le _)
      have hlt := htwo (fun he => by rw [he] at hg; exact absurd hg List.not_mem_nil)
      rcases hmax other hm hn with hx | hx <;> omega
    refine ⟨v,rfl,hv,hvk,hvh,hvg,fun ha => ⟨ha,?_,?_⟩⟩
    · have hfree := h.free_eq
      rw [hf,Nat.zero_add] at hfree
      rw [ho,ahead_append hk,←ho]
      exact hfree
    · intro w hw hwk hwg
      rw [grown_turn ho hk,grown_turn ho hk,←h.kept_held w hwg,←h.kept_held v hvg]
      exact hmax w hw hwk

/-- Nobody else is due at that turn. -/
theorem Due.unique {w : κ} (hv : Due b order given k v) (hw : Due b order given k w)
    (hvo : v∈order) (hwo : w∈order) (hvk : v≠k) (hwk : w≠k) (hvg : v∉given.map Prod.snd)
    (hwg : w∉given.map Prod.snd) : v=w := by
  rcases hv.first_largest w hwo hwk hwg with hlt | ⟨heq,hwv⟩
  · rcases hw.first_largest v hvo hvk hvg with hlt' | ⟨heq,_⟩ <;> omega
  · rcases hw.first_largest v hvo hvk hvg with hlt | ⟨_,hvw⟩
    · omega
    · exact ahead_total hvo hwo hvw hwv

/-- The pairs to come, one by one. -/
theorem goesOn_cons : GoesOn b order given (k::rest) ((k,v)::later) ↔
    v∈order ∧ Due b order given k v ∧ GoesOn b order (given++[(k,v)]) rest later := by
  have happ : (given++[(k,v)])++later=given++(k,v)::later := by
    rw [List.append_assoc,List.singleton_append]
  constructor
  · intro h
    refine ⟨h.holders _ List.mem_cons_self,?_,?_,?_,?_,?_,?_⟩
    · have hdue := h.due [] k v later rfl
      rwa [List.append_nil] at hdue
    · exact List.cons_sublist_cons.mp h.in_turn
    · exact fun pair hm => h.holders pair (List.mem_cons_of_mem _ hm)
    · rw [happ]
      exact h.apart
    · intro front k' v' back he
      rw [List.append_assoc,List.singleton_append]
      exact h.due ((k,v)::front) k' v' back (congrArg ((k,v)::·) he)
    · rw [happ]
      exact h.enough
  · intro ⟨hv,hdue,h⟩
    refine ⟨List.cons_sublist_cons.mpr h.in_turn,?_,?_,?_,?_⟩
    · intro pair hm
      rcases List.mem_cons.mp hm with rfl | hm
      · exact hv
      · exact h.holders pair hm
    · rw [←happ]
      exact h.apart
    · intro front k' v' back he
      cases front with
      | nil =>
        obtain ⟨hp,_⟩ := List.cons.inj he
        obtain ⟨rfl,rfl⟩ := Prod.mk.inj hp
        rw [List.append_nil]
        exact hdue
      | cons pair front =>
        obtain ⟨hp,htail⟩ := List.cons.inj he
        have hlater := h.due front k' v' back htail
        rw [List.append_assoc,List.singleton_append] at hlater
        rwa [←hp]
    · rw [←happ]
      exact h.enough

/-- At a turn with a block to spare no pair starts. -/
theorem Accounts.goesOn_serve (h : Accounts b₀ order done given b victims evictors)
    (ho : order=done++k::rest) (hk : k∉done) (hr : b.asks k=false ∨ 0<b.free) :
    GoesOn b₀ order given (k::rest) later ↔ GoesOn b₀ order given rest later := by
  constructor
  · intro hg
    refine ⟨?_,hg.holders,hg.apart,hg.due,hg.enough⟩
    rcases List.sublist_cons_iff.mp hg.in_turn with hs | ⟨tail,he,_⟩
    · exact hs
    · exfalso
      obtain ⟨pair,later,rfl,rfl,_⟩ := List.map_eq_cons_iff.mp he
      have hdue := hg.due [] pair.1 pair.2 later rfl
      rw [List.append_nil] at hdue
      have hused := hdue.used_up
      have hfree := h.free_eq
      rw [ho,ahead_append hk,←ho] at hused
      rcases hr with hr | hr
      · rw [h.asks_eq pair.1 hk,takes,hdue.asks,Bool.true_or] at hr
        exact Bool.noConfusion hr
      · omega
  · exact fun hg => ⟨hg.in_turn.cons k,hg.holders,hg.apart,hg.due,hg.enough⟩

/-- At a turn without one a pair starts. -/
theorem Accounts.goesOn_short (h : Accounts b₀ order done given b victims evictors)
    (hd : order.Nodup) (ho : order=done++k::rest) (hk : k∉done) (ha : b.asks k=true)
    (hf : b.free=0) (hg : GoesOn b₀ order given (k::rest) later) :
    ∃ v later', later=(k,v)::later' := by
  have hfree := h.free_eq
  have htaken : taken b₀ order given (done++[k])=supply b₀ order given+1 := by
    rw [taken_concat,←h.asks_eq k hk,ha,Bool.toNat_true]
    omega
  cases later with
  | nil =>
    have henough := hg.enough
    rw [List.append_nil] at henough
    have hsub : (done++[k]).Sublist order := by
      rw [ho,List.append_cons done k rest]
      exact List.sublist_append_left _ _
    have hle : taken b₀ order given (done++[k])≤taken b₀ order given order := hsub.countP_le
    omega
  | cons pair later =>
    rcases List.sublist_cons_iff.mp hg.in_turn with hs | ⟨tail,he,_⟩
    · exfalso
      have hused := (hg.due [] pair.1 pair.2 later rfl).used_up
      rw [List.append_nil] at hused
      obtain ⟨mid,back,rfl⟩ := List.append_of_mem (hs.subset List.mem_cons_self)
      have hn : pair.1∉done++k::mid := by
        have hsplit : order=(done++k::mid)++pair.1::back := by
          rw [ho,List.append_assoc,List.cons_append]
        exact fun hm => List.disjoint_of_nodup_append (hsplit ▸ hd) hm List.mem_cons_self
      have hahead : ahead order pair.1=(done++[k])++mid := by
        rw [ho,←List.cons_append,←List.append_assoc,ahead_append hn,List.append_cons]
      have hle : taken b₀ order given (done++[k])≤taken b₀ order given ((done++[k])++mid) :=
        (List.sublist_append_left _ _).countP_le
      rw [hahead] at hused
      omega
    · obtain ⟨rfl,_⟩ := List.cons.inj he
      exact ⟨pair.2,later,rfl⟩

omit [DecidableEq κ] in
/-- Of pairs that are apart the first ones are. -/
theorem apart_front (h : ((given++later).map Prod.snd++(given++later).map Prod.fst).Nodup) :
    (given.map Prod.snd++given.map Prod.fst).Nodup := by
  refine List.Nodup.sublist ?_ h
  rw [List.map_append,List.map_append]
  exact (List.sublist_append_left _ _).append (List.sublist_append_left _ _)

/-- From any turn on the rest is clean exactly when pairs to come can be named. -/
theorem Accounts.clean_iff (hpos : ∀ k∈order, 0<b₀.held k) (hd : order.Nodup)
    (hlen : 1<order.length) (rest : List κ) :
    ∀ {done : List κ} {given : List (κ×κ)} {b : Stock κ} {victims evictors : List κ},
      order=done++rest → Accounts b₀ order done given b victims evictors →
        (Clean (largest order) none rest b victims evictors ↔
          ∃ later, GoesOn b₀ order given rest later) := by
  induction rest with
  | nil =>
    intro done given b victims evictors ho h
    rw [List.append_nil] at ho
    have hfree := h.free_eq
    rw [←ho] at hfree
    refine iff_of_true trivial ⟨[],List.Sublist.slnil,fun _ hm => absurd hm List.not_mem_nil,
      ?_,?_,?_⟩
    · rw [List.append_nil]
      exact h.apart
    · intro front k v back he
      exact absurd he.symm (List.append_ne_nil_of_right_ne_nil _ (List.cons_ne_nil _ _))
    · rw [List.append_nil]
      omega
  | cons k rest ih =>
    intro done given b victims evictors ho h
    have hk : k∉done := fun hm =>
      List.disjoint_of_nodup_append (ho ▸ hd) hm List.mem_cons_self
    have ho' : order=(done++[k])++rest := by rw [ho,List.append_cons]
    by_cases hr : b.asks k=false ∨ 0<b.free
    · rw [clean_serve hr,ih ho' (h.serve hk hr)]
      exact exists_congr (fun later => (h.goesOn_serve ho hk hr).symm)
    · rw [not_or,Bool.not_eq_false,Nat.not_lt,Nat.le_zero] at hr
      obtain ⟨ha,hf⟩ := hr
      obtain ⟨v,hc,hv,hvk,hvh,hvg,hdue⟩ := h.choice hpos hd hlen ho hk hf
      have hask : k∉given.map Prod.snd → b₀.asks k=true := fun hn =>
        (takes_kept hn).symm.trans ((h.asks_eq k hk).symm.trans ha)
      rw [clean_displace ha hf hc,h.mem_victims,h.mem_evictors]
      constructor
      · intro ⟨hkg,hve,_,hclean⟩
        have hke : k∉given.map Prod.fst := by
          intro hm
          obtain ⟨pair,hp,he⟩ := List.mem_map.mp hm
          exact hk (he ▸ (h.payers_done pair hp).1)
        have hap := (apart_concat (k := k) (v := v)).mpr ⟨by
          rw [List.mem_cons,List.mem_append]
          exact fun hm => hm.elim hvk (fun hm => hm.elim hvg hve),by
          rw [List.mem_append]
          exact fun hm => hm.elim hkg hke,h.apart⟩
        obtain ⟨later,hl⟩ :=
          (ih ho' (h.displace ho hk (hask hkg) hf hvh hap)).mp hclean
        exact ⟨(k,v)::later,goesOn_cons.mpr ⟨hv,hdue (hask hkg),hl⟩⟩
      · intro ⟨later,hl⟩
        obtain ⟨w,later,rfl⟩ := h.goesOn_short hd ho hk ha hf hl
        obtain ⟨hw,hdw,hl⟩ := goesOn_cons.mp hl
        have hap := apart_front hl.apart
        obtain ⟨hwn,hkn,_⟩ := apart_concat.mp hap
        rw [List.mem_cons,List.mem_append,not_or,not_or] at hwn
        rw [List.mem_append,not_or] at hkn
        obtain rfl : v=w :=
          (hdue (hask hkn.1)).unique hdw hv hw hvk hwn.1 hvg hwn.2.1
        exact ⟨hkn.1,hwn.2.2,(Option.some_ne_none v).symm,
          (ih ho' (h.displace ho hk (hask hkn.1) hf hvh hap)).mpr ⟨later,hl⟩⟩

end Account

/-- When the largest of two or more holders gives way, the foresight is exact. -/
theorem largestCovers_iff {b : Stock κ} {order : List κ} (hpos : ∀ k∈order, 0<b.held k)
    (hd : order.Nodup) (hlen : 1<order.length) :
    LargestCovers b order ↔ Clean (largest order) none order b [] [] :=
  (Accounts.clean_iff hpos hd hlen order rfl (.start b order)).symm

end CudaForge.LargestTurns
