import CudaForge.EvictionOrder

/-!
# Turns at a pool of blocks

Keys in a row take one turn each and ask for one more block or for none. When
none is free another holder is displaced: its blocks become free, and from
then on it asks for one itself. A row of turns is clean when nobody displaces
after having been displaced and nobody is displaced after having displaced.
When the latest holder gives way, one comparison of blocks with askers tells
beforehand whether a row of turns is clean.
-/

namespace CudaForge.BlockTurns

open EvictionOrder

/-- What can be read off a pool before a turn. -/
structure Stock (κ : Type) where
  /-- Blocks nobody holds. -/
  free : ℕ
  /-- Blocks that each key holds. -/
  held : κ → ℕ
  /-- Whether a key asks for one more at its turn. -/
  asks : κ → Bool

namespace Stock

variable {κ : Type}

/-- How many of these keys ask. -/
def asking (b : Stock κ) (turns : List κ) : ℕ := turns.countP b.asks

/-- The blocks these keys hold together. -/
def worth (b : Stock κ) (keys : List κ) : ℕ := (keys.map b.held).sum

@[simp] theorem asking_nil (b : Stock κ) : b.asking []=0 := rfl

@[simp] theorem worth_nil (b : Stock κ) : b.worth []=0 := rfl

theorem asking_cons (b : Stock κ) (k : κ) (turns : List κ) :
    b.asking (k::turns)=(b.asks k).toNat+b.asking turns := by
  rw [asking,asking,List.countP_cons]
  cases ha : b.asks k <;> simp only [if_true,if_false,Bool.false_eq_true,Bool.toNat_true,
    Bool.toNat_false] <;> omega

@[simp] theorem worth_cons (b : Stock κ) (k : κ) (keys : List κ) :
    b.worth (k::keys)=b.held k+b.worth keys := by rw [worth,List.map_cons,List.sum_cons,worth]

@[simp] theorem asking_append (b : Stock κ) (turns later : List κ) :
    b.asking (turns++later)=b.asking turns+b.asking later := List.countP_append

@[simp] theorem worth_append (b : Stock κ) (keys later : List κ) :
    b.worth (keys++later)=b.worth keys+b.worth later := by
  rw [worth,List.map_append,List.sum_append,worth,worth]

theorem asking_singleton (b : Stock κ) (k : κ) : b.asking [k]=(b.asks k).toNat := by
  rw [asking_cons,asking_nil,Nat.add_zero]

variable [DecidableEq κ]

/-- A key takes its turn with a block to spare, or asks for none. -/
def serve (b : Stock κ) (k : κ) : Stock κ :=
  if b.asks k then ⟨b.free-1,Function.update b.held k (b.held k+1),b.asks⟩ else b

/-- A holder gives way: its blocks become free and it asks for one. -/
def displace (b : Stock κ) (v : κ) : Stock κ :=
  ⟨b.free+b.held v,emptiedAt b.held v,Function.update b.asks v true⟩

@[simp] theorem serve_asks (b : Stock κ) (k : κ) : (b.serve k).asks=b.asks := by
  unfold serve
  split <;> rfl

@[simp] theorem serve_free (b : Stock κ) (k : κ) :
    (b.serve k).free=b.free-(b.asks k).toNat := by
  unfold serve
  cases ha : b.asks k <;> simp only [if_true,if_false,Bool.false_eq_true,Bool.toNat_true,
    Bool.toNat_false,Nat.sub_zero]

theorem serve_held_self (b : Stock κ) (k : κ) :
    (b.serve k).held k=b.held k+(b.asks k).toNat := by
  unfold serve
  cases ha : b.asks k <;> simp only [if_true,if_false,Bool.false_eq_true,Bool.toNat_true,
    Bool.toNat_false,Nat.add_zero,Function.update_self]

theorem serve_held_ne (b : Stock κ) {k other : κ} (hn : other≠k) :
    (b.serve k).held other=b.held other := by
  unfold serve
  split
  · exact Function.update_of_ne hn _ _
  · rfl

@[simp] theorem displace_free (b : Stock κ) (v : κ) : (b.displace v).free=b.free+b.held v := rfl

@[simp] theorem displace_held_self (b : Stock κ) (v : κ) : (b.displace v).held v=0 :=
  Function.update_self _ _ _

@[simp] theorem displace_asks_self (b : Stock κ) (v : κ) : (b.displace v).asks v=true :=
  Function.update_self _ _ _

theorem displace_held_ne (b : Stock κ) {v other : κ} (hn : other≠v) :
    (b.displace v).held other=b.held other := emptiedAt_of_ne hn

theorem displace_asks_ne (b : Stock κ) {v other : κ} (hn : other≠v) :
    (b.displace v).asks other=b.asks other := Function.update_of_ne hn _ _

/-- Two stocks that agree but for what others than these keys ask. -/
structure Alike (b : Stock κ) (turns : List κ) (b' : Stock κ) : Prop where
  free_eq : b.free=b'.free
  held_eq : b.held=b'.held
  asks_eq : ∀ k∈turns, b.asks k=b'.asks k

omit [DecidableEq κ] in
theorem Alike.rest {b b' : Stock κ} {k : κ} {turns : List κ} (h : b.Alike (k::turns) b') :
    b.Alike turns b' :=
  ⟨h.free_eq,h.held_eq,fun other hm => h.asks_eq other (List.mem_cons_of_mem _ hm)⟩

theorem Alike.serve {b b' : Stock κ} {k : κ} {turns : List κ} (h : b.Alike (k::turns) b') :
    (b.serve k).Alike turns (b'.serve k) := by
  have hk := h.asks_eq k List.mem_cons_self
  refine ⟨by rw [serve_free,serve_free,h.free_eq,hk],?_,?_⟩
  · funext other
    by_cases he : other=k
    · rw [he,serve_held_self,serve_held_self,h.held_eq,hk]
    · rw [serve_held_ne b he,serve_held_ne b' he,h.held_eq]
  · rw [serve_asks,serve_asks]
    exact h.rest.asks_eq

theorem Alike.displace {b b' : Stock κ} {turns : List κ} (h : b.Alike turns b') (v : κ) :
    (b.displace v).Alike turns (b'.displace v) := by
  refine ⟨congrArg₂ (·+·) h.free_eq (congrFun h.held_eq v),
    congrArg (emptiedAt · v) h.held_eq,?_⟩
  intro k hm
  by_cases he : k=v
  · rw [he,displace_asks_self,displace_asks_self]
  · rw [displace_asks_ne b he,displace_asks_ne b' he,h.asks_eq k hm]

end Stock

variable {κ : Type} [DecidableEq κ]

/-- Going through the turns, nobody displaces who has been displaced, and
neither one who has displaced nor the one to be spared gives way. -/
def Clean (choose : (κ → ℕ) → κ → Option κ) (spared : Option κ) :
    List κ → Stock κ → List κ → List κ → Prop
  | [],_,_,_ => True
  | k::rest,b,victims,evictors =>
    if b.asks k=true ∧ b.free=0 then
      match choose b.held k with
      | none => Clean choose spared rest b victims evictors
      | some v =>
        k∉victims ∧ v∉evictors ∧ spared≠some v ∧
          Clean choose spared rest ((b.displace v).serve k) (v::victims) (k::evictors)
    else Clean choose spared rest (b.serve k) victims evictors

section Turns

variable {choose : (κ → ℕ) → κ → Option κ} {spared : Option κ} {b : Stock κ}
variable {victims evictors turns rest : List κ} {k v : κ}

/-- A turn with a block to spare. -/
theorem clean_serve (h : b.asks k=false ∨ 0<b.free) :
    Clean choose spared (k::rest) b victims evictors ↔
      Clean choose spared rest (b.serve k) victims evictors := by
  rw [Clean,if_neg]
  rintro ⟨ha,hf⟩
  rcases h with h | h
  · exact absurd (ha.symm.trans h) Bool.noConfusion
  · omega

/-- A turn at which somebody gives way. -/
theorem clean_displace (ha : b.asks k=true) (hf : b.free=0) (hc : choose b.held k=some v) :
    Clean choose spared (k::rest) b victims evictors ↔
      k∉victims ∧ v∉evictors ∧ spared≠some v ∧
        Clean choose spared rest ((b.displace v).serve k) (v::victims) (k::evictors) := by
  rw [Clean,if_pos ⟨ha,hf⟩,hc]

/-- A turn refused for want of anyone to give way. -/
theorem clean_refuse (ha : b.asks k=true) (hf : b.free=0) (hc : choose b.held k=none) :
    Clean choose spared (k::rest) b victims evictors ↔
      Clean choose spared rest b victims evictors := by
  rw [Clean,if_pos ⟨ha,hf⟩,hc]

/-- Only what the keys of these turns ask is read. -/
theorem clean_congr (turns : List κ) : ∀ {b b' : Stock κ} {victims evictors : List κ},
    b.Alike turns b' → (Clean choose spared turns b victims evictors ↔
      Clean choose spared turns b' victims evictors) := by
  induction turns with
  | nil => exact fun _ => Iff.rfl
  | cons k rest ih =>
    intro b b' victims evictors h
    have hk := h.asks_eq k List.mem_cons_self
    by_cases hr : b.asks k=false ∨ 0<b.free
    · have hr' : b'.asks k=false ∨ 0<b'.free := by rwa [←hk,←h.free_eq]
      rw [clean_serve hr,clean_serve hr',ih h.serve]
    · rw [not_or,Bool.not_eq_false,Nat.not_lt,Nat.le_zero] at hr
      obtain ⟨ha,hf⟩ := hr
      have ha' : b'.asks k=true := hk ▸ ha
      have hf' : b'.free=0 := h.free_eq ▸ hf
      cases hc : choose b.held k with
      | none => rw [clean_refuse ha hf hc,clean_refuse ha' hf' (h.held_eq ▸ hc),ih h.rest]
      | some v =>
        rw [clean_displace ha hf hc,clean_displace ha' hf' (h.held_eq ▸ hc),ih (h.displace v).serve]

end Turns

/-- The foresight when the latest holder gives way. Either the order splits
into those who stay and those who go: the free blocks and those of the latter
cover everyone who stays and asks and one block for each who goes, and short
of the first of these they would not cover those who stay. Or the blocks last
up to a key with everyone behind it gone: then the key before it gives way,
which is not the first and has made nobody give way. -/
def LatestCovers (b : Stock κ) (order : List κ) : Prop :=
  (∃ stay gone, order=stay++gone ∧ b.asking stay+gone.length≤b.free+b.worth gone ∧
    ∀ k rest, gone=k::rest → b.free+b.worth rest<b.asking stay) ∨
  ∃ front p k gone, order=front++p::k::gone ∧ front≠[] ∧ b.asks k=true ∧
    b.asking (front++[p])=b.free+b.worth gone ∧
    (b.asks p=true → ∀ v∈gone.head?, b.held v≠1) ∧
    gone.length+1≤b.held p+(b.asks p).toNat

/-- The latest other holder of an order. -/
def latest (order : List κ) (held : κ → ℕ) (k : κ) : Option κ :=
  (newestFirst held (order.filter (fun other => decide (other≠k)))).head?

/-- The latest is whoever has nobody behind him that holds a block. -/
theorem latest_eq {pre suf : List κ} {held : κ → ℕ} {k v : κ} (hn : v≠k) (hv : 0<held v)
    (hs : ∀ other∈suf, other≠k → held other=0) : latest (pre++v::suf) held k=some v := by
  rw [latest,newestFirst,List.filter_append,
    List.filter_cons_of_pos (p := fun other => decide (other≠k)) (decide_eq_true hn),
    List.reverse_append,List.reverse_cons,List.append_assoc,List.filter_append]
  have hz : (suf.filter (fun other => decide (other≠k))).reverse.filter
      (fun other => decide (0<held other))=[] := by
    rw [List.filter_eq_nil_iff]
    intro other hm
    obtain ⟨hm,hne⟩ := List.mem_filter.mp (List.mem_reverse.mp hm)
    rw [hs other hm (of_decide_eq_true hne)]
    decide
  rw [hz,List.nil_append,List.singleton_append,
    List.filter_cons_of_pos (p := fun other => decide (0<held other)) (decide_eq_true hv),
    List.head?_cons]

/-- Somebody gives way where another key holds a block. -/
theorem latest_ne_none {order : List κ} {held : κ → ℕ} {k other : κ} (hm : other∈order)
    (hn : other≠k) (hh : 0<held other) : latest order held k≠none := by
  intro hc
  have hf : other∈order.filter (fun other => decide (other≠k)) :=
    List.mem_filter.mpr ⟨hm,decide_eq_true hn⟩
  have hl := mem_newestFirst.mpr ⟨hf,hh⟩
  rw [latest,List.head?_eq_none_iff] at hc
  rw [hc] at hl
  exact absurd hl List.not_mem_nil

/-- Turns of keys that have all given way, with another holder looking on. -/
theorem clean_gone {order : List κ} {spared : Option κ} {other : κ} (hm : other∈order)
    (turns : List κ) : ∀ {b : Stock κ} {victims evictors : List κ}, other∉turns →
      0<b.held other → (∀ k∈turns, b.asks k=true ∧ k∈victims) →
      (Clean (latest order) spared turns b victims evictors ↔ turns.length≤b.free) := by
  induction turns with
  | nil => exact fun _ _ _ => iff_of_true trivial (Nat.zero_le _)
  | cons k rest ih =>
    intro b victims evictors hn hh hg
    obtain ⟨ha,hk⟩ := hg k List.mem_cons_self
    rw [List.mem_cons,not_or] at hn
    rcases Nat.eq_zero_or_pos b.free with hf | hf
    · cases hc : latest order b.held k with
      | none => exact absurd hc (latest_ne_none hm hn.1 hh)
      | some v =>
        rw [clean_displace ha hf hc,hf]
        exact iff_of_false (fun h => h.1 hk) (Nat.not_succ_le_zero _)
    · rw [clean_serve (.inr hf),ih hn.2 (by rwa [Stock.serve_held_ne b hn.1])
        (by rw [Stock.serve_asks]; exact fun k' hm => hg k' (List.mem_cons_of_mem _ hm)),
        Stock.serve_free,ha,Bool.toNat_true,List.length_cons]
      omega

/-- A row of turns in which so far only those at its end gave way: what the
keys hold, in terms of what they held before. -/
structure Stands (b₀ : Stock κ) (done mid gone : List κ) (b : Stock κ)
    (victims evictors : List κ) : Prop where
  free_eq : b.free+b₀.asking done=b₀.free+b₀.worth gone
  done_held : ∀ k∈done, b.held k=b₀.held k+(b₀.asks k).toNat
  mid_held : ∀ k∈mid, b.held k=b₀.held k ∧ b.asks k=b₀.asks k
  gone_held : ∀ k∈gone, b.held k=0 ∧ b.asks k=true ∧ k∈victims
  victims_gone : ∀ k∈victims, k∈gone
  evictors_done : ∀ k∈evictors, k∈done
  /-- Those who stay needed everyone's blocks who is gone. -/
  shortest : ∀ k rest, gone=k::rest → b₀.free+b₀.worth rest<b₀.asking done

section Latest

variable {order done mid kept rest gone victims evictors : List κ} {b₀ b : Stock κ} {k v : κ}

omit [DecidableEq κ] in
/-- Nobody has had a turn. -/
theorem Stands.start (b : Stock κ) (order : List κ) : Stands b [] order [] b [] [] :=
  ⟨rfl,nofun,fun _ _ => ⟨rfl,rfl⟩,nofun,nofun,nofun,nofun⟩

/-- A turn with a block to spare. -/
theorem Stands.serve (hs : Stands b₀ done (k::mid) gone b victims evictors)
    (hd : (done++k::(mid++gone)).Nodup) (hr : b₀.asks k=false ∨ 0<b.free) :
    Stands b₀ (done++[k]) mid gone (b.serve k) victims evictors := by
  obtain ⟨hk,ha⟩ := hs.mid_held k List.mem_cons_self
  obtain ⟨_,hkn,hdis⟩ := List.nodup_append'.mp hd
  have hkd : k∉done := fun hm => hdis hm List.mem_cons_self
  have hkm := (List.nodup_cons.mp hkn).1
  rw [List.mem_append,not_or] at hkm
  have hf := hs.free_eq
  have hask : b₀.asking (done++[k])=b₀.asking done+(b₀.asks k).toNat := by
    rw [Stock.asking_append,Stock.asking_singleton]
  refine ⟨?_,?_,?_,?_,hs.victims_gone,?_,?_⟩
  · rw [Stock.serve_free,ha,hask]
    rcases hr with hr | hr
    · rw [hr,Bool.toNat_false]
      omega
    · have := Bool.toNat_le (b₀.asks k)
      omega
  · intro other hm
    rcases List.mem_append.mp hm with hm | hm
    · have hne : other≠k := fun he => hkd (he ▸ hm)
      rw [Stock.serve_held_ne b hne,hs.done_held other hm]
    · rw [List.mem_singleton.mp hm,Stock.serve_held_self,hk,ha]
  · intro other hm
    have hne : other≠k := fun he => hkm.1 (he ▸ hm)
    rw [Stock.serve_held_ne b hne,Stock.serve_asks]
    exact hs.mid_held other (List.mem_cons_of_mem _ hm)
  · intro other hm
    have hne : other≠k := fun he => hkm.2 (he ▸ hm)
    rw [Stock.serve_held_ne b hne,Stock.serve_asks]
    exact hs.gone_held other hm
  · exact fun other hm => List.mem_append_left _ (hs.evictors_done other hm)
  · intro other later he
    have := hs.shortest other later he
    omega

/-- A turn at which the last who stays gives way. -/
theorem Stands.displace (hs : Stands b₀ done (k::(mid++[v])) gone b victims evictors)
    (hd : (done++k::(mid++v::gone)).Nodup) (ha : b₀.asks k=true) (hf : b.free=0)
    (hv : 0<b₀.held v) :
    Stands b₀ (done++[k]) mid (v::gone) ((b.displace v).serve k) (v::victims) (k::evictors) := by
  obtain ⟨hk,hka⟩ := hs.mid_held k List.mem_cons_self
  obtain ⟨hvh,_⟩ := hs.mid_held v (by simp only [List.mem_cons,List.mem_append,true_or,or_true])
  obtain ⟨hdd,hkn,hdis⟩ := List.nodup_append'.mp hd
  have hkd : k∉done := fun hm => hdis hm List.mem_cons_self
  have hvd : v∉done := fun hm =>
    hdis hm (List.mem_cons_of_mem _ (List.mem_append_right _ List.mem_cons_self))
  obtain ⟨hkm,hrest⟩ := List.nodup_cons.mp hkn
  obtain ⟨_,hvg,hmv⟩ := List.nodup_append'.mp hrest
  rw [List.mem_append,List.mem_cons,not_or,not_or] at hkm
  obtain ⟨hkm,hkv,hkg⟩ := hkm
  have hvm : v∉mid := fun hm => hmv hm List.mem_cons_self
  have hvn : v∉gone := (List.nodup_cons.mp hvg).1
  have heq := hs.free_eq
  have hask : b₀.asking (done++[k])=b₀.asking done+1 := by
    rw [Stock.asking_append,Stock.asking_singleton,ha,Bool.toNat_true]
  have hkask : (b.displace v).asks k=true := (b.displace_asks_ne hkv).trans (hka.trans ha)
  have hheld : ∀ other, other≠k → other≠v → ((b.displace v).serve k).held other=b.held other :=
    fun other hn hm => (Stock.serve_held_ne _ hn).trans (b.displace_held_ne hm)
  have hasks : ∀ other, other≠v → ((b.displace v).serve k).asks other=b.asks other := by
    intro other hm
    rw [Stock.serve_asks,b.displace_asks_ne hm]
  refine ⟨?_,?_,?_,?_,?_,?_,?_⟩
  · rw [Stock.serve_free,Stock.displace_free,hkask,hask,Stock.worth_cons,Bool.toNat_true]
    omega
  · intro other hm
    rcases List.mem_append.mp hm with hm | hm
    · rw [hheld other (fun he => hkd (he ▸ hm)) (fun he => hvd (he ▸ hm)),hs.done_held other hm]
    · rw [List.mem_singleton.mp hm,Stock.serve_held_self,b.displace_held_ne hkv,hkask,ha,hk]
  · intro other hm
    have hne : other≠v := fun he => hvm (he ▸ hm)
    rw [hheld other (fun he => hkm (he ▸ hm)) hne,hasks other hne]
    exact hs.mid_held other (List.mem_cons_of_mem _ (List.mem_append_left _ hm))
  · intro other hm
    rcases List.mem_cons.mp hm with rfl | hm
    · rw [Stock.serve_held_ne _ (Ne.symm hkv),Stock.serve_asks]
      exact ⟨b.displace_held_self _,b.displace_asks_self _,List.mem_cons_self⟩
    · obtain ⟨hz,hask',hmv'⟩ := hs.gone_held other hm
      have hne : other≠v := fun he => hvn (he ▸ hm)
      rw [hheld other (fun he => hkg (he ▸ hm)) hne,hasks other hne]
      exact ⟨hz,hask',List.mem_cons_of_mem _ hmv'⟩
  · intro other hm
    exact List.mem_cons.mpr ((List.mem_cons.mp hm).imp id (hs.victims_gone other))
  · intro other hm
    rcases List.mem_cons.mp hm with rfl | hm
    · exact List.mem_append_right _ (List.mem_singleton_self _)
    · exact List.mem_append_left _ (hs.evictors_done other hm)
  · intro other later he
    obtain ⟨_,rfl⟩ := List.cons.inj he
    omega

/-- Turns that the free blocks and those of the keys behind them cover: only
these give way, and the turns after them decide. -/
theorem Stands.run (hpos : ∀ k∈order, 0<b₀.held k) (hd : order.Nodup) (kept : List κ) :
    ∀ {done rest gone victims evictors : List κ} {b : Stock κ},
      order=done++(kept++(rest++gone)) → Stands b₀ done (kept++rest) gone b victims evictors →
      b₀.asking done+b₀.asking kept ≤ b₀.free+b₀.worth rest+b₀.worth gone →
      ∃ stay out b' victims' evictors', rest=stay++out ∧
        Stands b₀ (done++kept) stay (out++gone) b' victims' evictors' ∧
        (Clean (latest order) order.head? (kept++(rest++gone)) b victims evictors ↔
          Clean (latest order) order.head? (rest++gone) b' victims' evictors') := by
  induction kept with
  | nil =>
    intro done rest gone victims evictors b _ hs _
    rw [List.append_nil]
    exact ⟨rest,[],b,victims,evictors,(List.append_nil rest).symm,hs,Iff.rfl⟩
  | cons k kept ih =>
    intro done rest gone victims evictors b ho hs hc
    obtain ⟨_,ha⟩ := hs.mid_held k List.mem_cons_self
    have hsplit : order=(done++[k])++(kept++(rest++gone)) := by
      rw [ho,List.append_assoc]
      rfl
    have happ : done++k::kept=(done++[k])++kept := by rw [List.append_assoc]; rfl
    rw [Stock.asking_cons] at hc
    have hask : b₀.asking (done++[k])=b₀.asking done+(b₀.asks k).toNat := by
      rw [Stock.asking_append,Stock.asking_singleton]
    rw [happ]
    by_cases hr : b₀.asks k=false ∨ 0<b.free
    · have hd' : (done++k::((kept++rest)++gone)).Nodup := by
        rw [List.append_assoc]
        exact ho ▸ hd
      have hserved := hs.serve hd' hr
      obtain ⟨stay,out,b',victims',evictors',hrest,hst,hcl⟩ :=
        ih hsplit hserved (by omega)
      refine ⟨stay,out,b',victims',evictors',hrest,hst,?_⟩
      rw [List.cons_append,clean_serve (by rw [ha]; exact hr),hcl]
    · rw [not_or,Bool.not_eq_false,Nat.not_lt,Nat.le_zero] at hr
      obtain ⟨hk,hf⟩ := hr
      have heq := hs.free_eq
      rw [hk,Bool.toNat_true] at hc
      rcases List.eq_nil_or_concat rest with rfl | ⟨mid,v,rfl⟩
      · rw [Stock.worth_nil] at hc
        omega
      · rw [List.concat_eq_append] at ho hs hc hsplit ⊢
        have ho' : order=done++k::((kept++mid)++v::gone) := by
          rw [ho,List.append_assoc,List.append_assoc]
          rfl
        have hvm : v∈order := by
          rw [ho']
          simp only [List.mem_append,List.mem_cons,true_or,or_true]
        have hs' : Stands b₀ done (k::((kept++mid)++[v])) gone b victims evictors := by
          rw [List.append_assoc]
          exact hs
        have hdisplaced := hs'.displace (ho' ▸ hd) hk hf (hpos v hvm)
        rw [Stock.worth_append,Stock.worth_cons,Stock.worth_nil] at hc
        obtain ⟨stay,out,b',victims',evictors',rfl,hst,hcl⟩ :=
          ih (by rw [hsplit]; simp only [List.append_assoc,List.singleton_append]) hdisplaced
            (by rw [hask,hk,Bool.toNat_true,Stock.worth_cons]; omega)
        refine ⟨stay,out++[v],b',victims',evictors',by rw [List.append_assoc],?_,?_⟩
        · have hout : (out++[v])++gone=out++v::gone := List.append_cons out v gone |>.symm
          rw [hout]
          exact hst
        · obtain ⟨_,hkn,hdis⟩ := List.nodup_append'.mp (ho' ▸ hd)
          obtain ⟨hkt,_⟩ := List.nodup_cons.mp hkn
          have hvt : v∈(kept++(stay++out))++v::gone :=
            List.mem_append_right _ List.mem_cons_self
          have hvk : v≠k := fun he => hkt (he ▸ hvt)
          have hvd : v∉done := fun hm => hdis hm (List.mem_cons_of_mem _ hvt)
          have hvh := (hs.mid_held v (by simp only [List.mem_cons,List.mem_append,true_or,
            or_true])).1
          have hl : latest order b.held k=some v := by
            rw [ho',←List.cons_append,←List.append_assoc]
            exact latest_eq hvk (hvh ▸ hpos v hvm) (fun other hm _ => (hs.gone_held other hm).1)
          have hkv : k∉victims := fun hm =>
            hkt (List.mem_append_right _ (List.mem_cons_of_mem _ (hs.victims_gone k hm)))
          have hhead : order.head?≠some v := by
            intro hh
            rw [hsplit,List.head?_append_of_ne_nil _ (List.append_ne_nil_of_right_ne_nil _
              (List.cons_ne_nil _ _))] at hh
            rcases List.mem_append.mp (List.mem_of_mem_head? hh) with hm | hm
            · exact hvd hm
            · exact hvk (List.mem_singleton.mp hm)
          rw [List.cons_append,clean_displace (ha.trans hk) hf hl]
          simp only [List.append_assoc,List.singleton_append] at hcl ⊢
          exact (and_iff_right hkv).trans ((and_iff_right
            (fun hm => hvd (hs.evictors_done v hm))).trans ((and_iff_right hhead).trans hcl))

omit [DecidableEq κ] in
/-- Holders are worth something. -/
theorem worth_pos {keys : List κ} (hp : ∀ k∈keys, 0<b₀.held k) (hn : b₀.worth keys=0) :
    keys=[] := by
  cases keys with
  | nil => rfl
  | cons k rest =>
    rw [Stock.worth_cons] at hn
    have := hp k List.mem_cons_self
    omega

/-- Those who stay and ask need everyone's blocks who goes, and get them. -/
theorem latest_split {stay gone : List κ} (hpos : ∀ k∈order, 0<b₀.held k) (hd : order.Nodup)
    (ho : order=stay++gone) (hc : b₀.asking stay ≤ b₀.free+b₀.worth gone)
    (hs : ∀ k rest, gone=k::rest → b₀.free+b₀.worth rest<b₀.asking stay) :
    Clean (latest order) order.head? order b₀ [] [] ↔
      b₀.asking stay+gone.length≤b₀.free+b₀.worth gone := by
  have hstart : Stands b₀ [] (stay++gone) [] b₀ [] [] := .start b₀ _
  have ho' : order=[]++(stay++(gone++[])) := by rw [List.append_nil]; exact ho
  obtain ⟨left,out,b,victims,evictors,hg,hst,hcl⟩ :=
    hstart.run hpos hd stay ho' (by rw [Stock.asking_nil,Stock.worth_nil]; omega)
  rw [List.append_nil,←ho] at hcl
  rw [List.append_nil] at hst
  have hf := hst.free_eq
  rw [List.nil_append] at hf
  -- nobody of those who go is left
  have hout : gone=out := by
    cases left with
    | nil => exact hg
    | cons k left =>
      have hlt := hs k (left++out) hg
      rw [Stock.worth_append] at hlt
      omega
  rw [hcl]
  subst hout
  cases gone with
  | nil =>
    rw [Stock.worth_nil] at hc
    exact iff_of_true trivial hc
  | cons k rest =>
    have hlt := hs k rest rfl
    cases stay with
    | nil => exact absurd hlt (Nat.not_lt_zero _)
    | cons first later =>
      have hm : first∈order := by rw [ho]; exact List.mem_cons_self
      have hn : first∉k::rest := fun hm =>
        List.disjoint_of_nodup_append (ho ▸ hd) List.mem_cons_self hm
      have hh : 0<b.held first := by
        rw [hst.done_held first List.mem_cons_self]
        have := hpos first hm
        omega
      rw [clean_gone hm _ hn hh (fun k hk => (hst.gone_held k hk).2)]
      omega

/-- A key asks with nothing free and everyone behind it gone: the one before
it gives way, if it may, and its blocks have to cover those behind. -/
theorem Stands.back {front : List κ} {p : κ}
    (hs : Stands b₀ (front++[p]) [k] gone b victims evictors) (hpos : ∀ k∈order, 0<b₀.held k)
    (hd : order.Nodup) (ho : order=front++p::k::gone) (ha : b₀.asks k=true) (hf : b.free=0) :
    Clean (latest order) order.head? (k::gone) b victims evictors ↔
      p∉evictors ∧ front≠[] ∧ gone.length+1≤b₀.held p+(b₀.asks p).toNat := by
  obtain ⟨_,htail,hdis⟩ := List.nodup_append'.mp (ho ▸ hd)
  obtain ⟨hpt,hkt⟩ := List.nodup_cons.mp htail
  have hkg := (List.nodup_cons.mp hkt).1
  rw [List.mem_cons,not_or] at hpt
  obtain ⟨hkb,hka⟩ := hs.mid_held k (List.mem_singleton_self k)
  have hph := hs.done_held p (List.mem_append_right _ (List.mem_singleton_self p))
  have hp : 0<b₀.held p := hpos p (by rw [ho]; simp only [List.mem_append,List.mem_cons,true_or,
    or_true])
  have hl : latest order b.held k=some p := by
    rw [ho]
    refine latest_eq hpt.1 (by omega) ?_
    intro other hm hn
    exact (hs.gone_held other ((List.mem_cons.mp hm).resolve_left hn)).1
  have hkv : k∉victims := fun hm => hkg (hs.victims_gone k hm)
  have hhead : order.head?≠some p ↔ front≠[] := by
    rw [ho]
    cases front with
    | nil => exact iff_of_false (fun h => h rfl) (fun h => h rfl)
    | cons first rest =>
      refine iff_of_true (fun h => ?_) (List.cons_ne_nil _ _)
      rw [List.cons_append,List.head?_cons,Option.some.injEq] at h
      exact hdis (h ▸ List.mem_cons_self) List.mem_cons_self
  have hkd : (b.displace p).asks k=true :=
    (b.displace_asks_ne (Ne.symm hpt.1)).trans (hka.trans ha)
  have hkself : 0<((b.displace p).serve k).held k := by
    rw [Stock.serve_held_self,hkd,Bool.toNat_true]
    exact Nat.succ_pos _
  have hkorder : k∈order := by
    rw [ho]
    simp only [List.mem_append,List.mem_cons,true_or,or_true]
  have hgone : Clean (latest order) order.head? gone ((b.displace p).serve k) (p::victims)
      (k::evictors) ↔ gone.length+1≤b₀.held p+(b₀.asks p).toNat := by
    rw [clean_gone hkorder gone hkg hkself]
    · rw [Stock.serve_free,Stock.displace_free,hkd,Bool.toNat_true]
      omega
    · intro other hm
      have hne : other≠p := fun he => hpt.2 (he ▸ hm)
      obtain ⟨_,hask,hv⟩ := hs.gone_held other hm
      rw [Stock.serve_asks,b.displace_asks_ne hne]
      exact ⟨hask,List.mem_cons_of_mem _ hv⟩
  rw [clean_displace (hka.trans ha) hf hl,hgone,hhead]
  exact and_iff_right hkv

/-- The blocks last up to a key with everyone behind it gone. -/
theorem latest_back {front : List κ} {p : κ} (hpos : ∀ k∈order, 0<b₀.held k) (hd : order.Nodup)
    (ho : order=front++p::k::gone) (ha : b₀.asks k=true)
    (hc : b₀.asking (front++[p])=b₀.free+b₀.worth gone) :
    Clean (latest order) order.head? order b₀ [] [] ↔
      front≠[] ∧ (b₀.asks p=true → ∀ v∈gone.head?, b₀.held v≠1) ∧
        gone.length+1≤b₀.held p+(b₀.asks p).toNat := by
  have hstart : Stands b₀ [] (front++p::k::gone) [] b₀ [] [] := .start b₀ _
  have ho' : order=[]++(front++((p::k::gone)++[])) := by rw [List.append_nil]; exact ho
  have hmem : ∀ other∈p::k::gone, other∈order := fun other hm =>
    ho ▸ List.mem_append_right front hm
  have hp := hpos p (hmem p List.mem_cons_self)
  have hk := hpos k (hmem k (List.mem_cons_of_mem _ List.mem_cons_self))
  rw [Stock.asking_append,Stock.asking_singleton] at hc
  obtain ⟨left,out,b,victims,evictors,hg,hst,hcl⟩ := hstart.run hpos hd front ho'
    (by rw [Stock.asking_nil,Stock.worth_cons,Stock.worth_cons,Stock.worth_nil]; omega)
  rw [List.append_nil,←ho] at hcl
  rw [List.append_nil,List.nil_append] at hst
  have hf := hst.free_eq
  -- of those from `p` on only keys behind `k` may have gone
  obtain ⟨mid,rfl,rfl⟩ : ∃ mid, left=p::k::mid ∧ gone=mid++out := by
    cases left with
    | nil =>
      have hlt := hst.shortest p (k::gone) hg.symm
      rw [Stock.worth_cons] at hlt
      omega
    | cons first left =>
      obtain ⟨hfirst,hg⟩ := List.cons.inj hg
      cases left with
      | nil =>
        have hlt := hst.shortest k gone hg.symm
        omega
      | cons second mid =>
        obtain ⟨hsecond,hg⟩ := List.cons.inj hg
        exact ⟨mid,by rw [hfirst,hsecond],hg⟩
  have hmid : ∀ other∈mid, 0<b₀.held other := fun other hm => hpos other
    (hmem other (List.mem_cons_of_mem _ (List.mem_cons_of_mem _ (List.mem_append_left _ hm))))
  rw [Stock.worth_append] at hc
  obtain ⟨_,htail,hdis⟩ := List.nodup_append'.mp (ho ▸ hd)
  obtain ⟨_,hpa⟩ := hst.mid_held p List.mem_cons_self
  rw [hcl]
  by_cases hr : b₀.asks p=false ∨ 0<b.free
  · have hserved := hst.serve (by rw [List.cons_append,←ho]; exact hd) hr
    have hsf := hserved.free_eq
    rw [Stock.asking_append,Stock.asking_singleton] at hsf
    -- nobody behind `k` is left, and nothing is free
    have hz : mid=[] := worth_pos hmid (by omega)
    subst hz
    rw [Stock.worth_nil] at hc
    have hpe : p∉evictors := fun hm => hdis (hst.evictors_done p hm) List.mem_cons_self
    have hspare : b₀.asks p=true → ∀ v∈out.head?, b₀.held v≠1 := by
      intro hask v hv h1
      obtain ⟨rest,rfl⟩ := List.head?_eq_some_iff.mp hv
      have hlt := hst.shortest v rest rfl
      rw [hask,Bool.toNat_true,Stock.worth_cons] at hc
      omega
    rw [List.nil_append,clean_serve (by rw [hpa]; exact hr),
      hserved.back hpos hd ho ha (by omega)]
    exact ⟨fun h => ⟨h.2.1,hspare,h.2.2⟩,fun h => ⟨hpe,h.1,h.2.2⟩⟩
  · rw [not_or,Bool.not_eq_false,Nat.not_lt,Nat.le_zero] at hr
    obtain ⟨hask,hfree⟩ := hr
    rw [hask,Bool.toNat_true] at hc
    -- one key behind `k` was left, with a single block, and it gives way to `p`
    obtain ⟨v,rfl,hv⟩ : ∃ v, mid=[v] ∧ b₀.held v=1 := by
      cases mid with
      | nil =>
        rw [Stock.worth_nil] at hc
        omega
      | cons v rest =>
        rw [Stock.worth_cons] at hc
        have hvp := hmid v List.mem_cons_self
        have hz : rest=[] := worth_pos (fun k' hm => hmid k' (List.mem_cons_of_mem _ hm))
          (by omega)
        subst hz
        rw [Stock.worth_nil] at hc
        exact ⟨v,rfl,by omega⟩
    refine iff_of_false ?_ (fun h => h.2.1 hask v rfl hv)
    have hlast : Stands b₀ front (p::([k]++[v])) out b victims evictors := hst
    have hdisplaced := hlast.displace (ho ▸ hd) hask hfree (by omega)
    have hsf := hdisplaced.free_eq
    rw [Stock.asking_append,Stock.asking_singleton,hask,Bool.toNat_true,Stock.worth_cons] at hsf
    have hl : latest order b.held p=some v := by
      have hsplit : order=(front++[p,k])++v::out := by
        rw [ho,List.append_assoc]
        rfl
      have hvp : v≠p := fun he => (List.nodup_cons.mp htail).1
        (he ▸ List.mem_cons_of_mem _ List.mem_cons_self)
      have hvh := (hst.mid_held v (List.mem_cons_of_mem _ (List.mem_cons_of_mem _
        (List.mem_singleton_self v)))).1
      rw [hsplit]
      exact latest_eq hvp (by omega) (fun other hm _ => (hst.gone_held other hm).1)
    rw [clean_displace (hpa.trans hask) hfree hl]
    rintro ⟨_,_,_,hcl⟩
    exact ((hdisplaced.back hpos hd ho ha (by omega)).mp hcl).1 List.mem_cons_self

omit [DecidableEq κ] in
/-- Those who go are as few as the blocks allow. -/
theorem exists_split (b : Stock κ) (stay : List κ) : ∀ (gone : List κ),
    (∀ k rest, gone=k::rest → b.free+b.worth rest<b.asking stay+(b.asks k).toNat) →
    ∃ left out, stay++gone=left++out ∧ b.asking left≤b.free+b.worth out ∧
      ∀ k rest, out=k::rest → b.free+b.worth rest<b.asking left+(b.asks k).toNat := by
  induction stay using List.reverseRecOn with
  | nil => exact fun gone h => ⟨[],gone,rfl,Nat.zero_le _,h⟩
  | append_singleton stay k ih =>
    intro gone h
    by_cases hc : b.asking (stay++[k])≤b.free+b.worth gone
    · exact ⟨stay++[k],gone,rfl,hc,h⟩
    · obtain ⟨left,out,ho,hl⟩ := ih (k::gone) (by
        intro k' rest he
        obtain ⟨rfl,rfl⟩ := List.cons.inj he
        rw [Stock.asking_append,Stock.asking_singleton] at hc
        omega)
      refine ⟨left,out,?_,hl⟩
      rw [←ho,List.append_assoc]
      rfl

/-- When the latest holder gives way and the first of two or more holders is
to be spared, the foresight is exact. -/
theorem latestCovers_iff (hpos : ∀ k∈order, 0<b₀.held k) (hd : order.Nodup)
    (hlen : 1<order.length) :
    LatestCovers b₀ order ↔ Clean (latest order) order.head? order b₀ [] [] := by
  constructor
  · rintro (⟨stay,gone,ho,hc,hs⟩ | ⟨front,p,k,gone,ho,hf,ha,hc,h1,hl⟩)
    · exact (latest_split hpos hd ho (by omega) hs).mpr hc
    · exact (latest_back hpos hd ho ha hc).mpr ⟨hf,h1,hl⟩
  · intro h
    obtain ⟨stay,gone,ho,hc,hs⟩ := exists_split b₀ order [] nofun
    rw [List.append_nil] at ho
    cases gone with
    | nil =>
      exact Or.inl ⟨stay,[],ho,(latest_split hpos hd ho hc nofun).mp h,nofun⟩
    | cons k rest =>
      have hlt := hs k rest rfl
      by_cases hn : b₀.free+b₀.worth rest<b₀.asking stay
      · have hs' : ∀ k' rest', k::rest=k'::rest' → b₀.free+b₀.worth rest'<b₀.asking stay := by
          intro k' rest' he
          obtain ⟨_,rfl⟩ := List.cons.inj he
          exact hn
        exact Or.inl ⟨stay,k::rest,ho,(latest_split hpos hd ho hc hs').mp h,hs'⟩
      · have ha : b₀.asks k=true := by
          cases ha : b₀.asks k with
          | true => rfl
          | false =>
            rw [ha,Bool.toNat_false] at hlt
            omega
        rw [ha,Bool.toNat_true] at hlt
        rcases List.eq_nil_or_concat stay with rfl | ⟨front,p,rfl⟩
        · have hz : rest=[] := worth_pos (fun k' hm => hpos k' (by
            rw [ho]
            exact List.mem_cons_of_mem _ hm)) (by rw [Stock.asking_nil] at hlt; omega)
          rw [ho,hz] at hlen
          exact absurd hlen (Nat.lt_irrefl _)
        · rw [List.concat_eq_append] at ho hlt hn
          have ho' : order=front++p::k::rest := by
            rw [ho,List.append_assoc]
            rfl
          have hc' : b₀.asking (front++[p])=b₀.free+b₀.worth rest := by omega
          obtain ⟨hf,h1,hl⟩ := (latest_back hpos hd ho' ha hc').mp h
          exact Or.inr ⟨front,p,k,rest,ho',hf,ha,hc',h1,hl⟩

end Latest

end CudaForge.BlockTurns
