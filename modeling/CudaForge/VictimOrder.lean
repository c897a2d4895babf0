import CudaForge.CacheConformance
import CudaForge.EvictionOrder

/-!
# The victims of both cache managers stand in line

Under either policy the next victim is the head of a line of the other
sequences that hold blocks: the latest admission first, or the largest holder
first and equals in admission order. A run of the eviction loop takes turns
at this line.
-/

namespace CudaForge.VictimOrder

open ExceptionState CacheBlocks CacheManager CacheInvariant CacheReservation CacheNative
open CacheConformance EvictionOrder

variable {s t : KVCacheManager} {requester : SequenceId} {needed : ℕ}
variable {evicted : List SequenceId}

/-- The victims of a policy, from the admission order of those who may be
evicted and the blocks they hold. -/
def victimOrder (policy : PreemptionPolicy) (blocks : SequenceId → ℕ)
    (order : List SequenceId) : List SequenceId :=
  match policy with
  | .newest => newestFirst blocks order
  | .largest => largestFirst blocks order

/-- They are the holders of blocks. -/
theorem mem_victimOrder {policy : PreemptionPolicy} {blocks : SequenceId → ℕ}
    {order : List SequenceId} {k : SequenceId} :
    k∈victimOrder policy blocks order ↔ k∈order ∧ 0<blocks k := by
  cases policy with
  | newest => exact mem_newestFirst
  | largest => exact mem_largestFirst

/-- An admission order without the requester. -/
def others (order : List SequenceId) (requester : SequenceId) : List SequenceId :=
  order.filter (fun k => decide (k≠requester))

/-- The requester is not one of the others. -/
theorem mem_others {order : List SequenceId} {k : SequenceId} :
    k∈others order requester ↔ k∈order ∧ k≠requester := by
  rw [others,List.mem_filter,decide_eq_true_iff]

/-- The line of a policy. -/
def policyLine (policy : PreemptionPolicy) (order : List SequenceId) (hn : order.Nodup) :
    VictimLine SequenceId :=
  match policy with
  | .newest => newestLine order hn
  | .largest => largestLine order hn

/-- It lists the victims of the policy. -/
theorem policyLine_line (policy : PreemptionPolicy) {order : List SequenceId}
    (hn : order.Nodup) (blocks : SequenceId → ℕ) :
    (policyLine policy order hn).line blocks=victimOrder policy blocks order := by
  cases policy <;> rfl

/-- A candidate may be evicted when it is not the requester and holds blocks. -/
theorem evictable_eq (s : KVCacheManager) (requester candidate : SequenceId) :
    s.evictable requester candidate=
      (decide (0<s.blocksHeld candidate) && decide (candidate≠requester)) := by
  rw [KVCacheManager.evictable,KVCacheManager.blocksHeld]
  by_cases he : candidate=requester
  · simp only [he,if_true,ne_eq,not_true,decide_false,Bool.and_false]
  · rw [if_neg he,decide_eq_true he,Bool.and_true]
    cases s.tables.lookup candidate with
    | none => rfl
    | some table =>
      rw [Bool.eq_iff_iff,decide_eq_true_iff,Bool.not_eq_true',List.isEmpty_eq_false_iff,
        List.length_pos_iff]

/-- The source's scan is the general one over those who may be evicted. -/
theorem scanLargest_scan (s : KVCacheManager) (requester : SequenceId)
    (order : List SequenceId) : ∀ (best : Option SequenceId) (most : ℕ),
    s.scanLargest requester order best most=
      scanMax s.blocksHeld (others order requester) best most := by
  induction order with
  | nil => intro best most; rfl
  | cons candidate rest ih =>
    intro best most
    rw [KVCacheManager.scanLargest,others,List.filter_cons]
    by_cases he : candidate=requester
    · rw [if_pos he,if_neg (by simp only [he,ne_eq,not_true,decide_false,Bool.false_eq_true,
        not_false_eq_true]),ih]
      rfl
    · rw [if_neg he,if_pos (decide_eq_true he),scanMax]
      cases hk : s.tables.lookup candidate with
      | none =>
        have hz : s.blocksHeld candidate=0 := by rw [KVCacheManager.blocksHeld,hk]
        dsimp only
        rw [hz,if_neg (Nat.not_lt_zero most),ih]
        rfl
      | some table =>
        dsimp only
        rw [blocksHeld_of_lookup hk,ih,ih]
        rfl

/-- The next victim of the Python manager is the head of the line. -/
theorem chooseVictim_head (s : KVCacheManager) (requester : SequenceId) :
    s.chooseVictim requester=
      (victimOrder s.policy s.blocksHeld (others s.admissionOrder requester)).head? := by
  unfold KVCacheManager.chooseVictim victimOrder
  cases s.policy with
  | newest =>
    dsimp only
    rw [newestFirst,others,←List.filter_reverse,List.filter_filter,List.head?_filter]
    exact congrArg (List.find? · _) (funext (evictable_eq s requester))
  | largest =>
    dsimp only
    rw [scanLargest_scan,scanMax_head]

/-- So is that of the native one. -/
theorem native_chooseVictim_head (u : NativeManager) (requester : SequenceId) :
    u.chooseVictim requester=
      (victimOrder u.policy u.blocksHeld (others u.admissionOrder requester)).head? := by
  obtain ⟨tables,ht⟩ : ∃ tables : Tables, tables.toFinmap=u.tables :=
    Finmap.induction_on u.tables (fun tables => ⟨tables,rfl⟩)
  -- the Python manager with the same entries in some order
  let s : KVCacheManager := ⟨⟨0,0,[],[]⟩,0,u.policy,tables,u.admissionOrder,0,0⟩
  have hu : ∀ sequence, u.tables.lookup sequence=s.tables.lookup sequence := by
    intro sequence
    rw [←ht,Finmap.lookup_toFinmap]
  have hb : u.blocksHeld=s.blocksHeld := by
    funext sequence
    rw [NativeManager.blocksHeld,hu]
    rfl
  rw [chooseVictim_eq hu rfl rfl,chooseVictim_head,hb]

/-- Emptying a table empties its holder in the books of blocks. -/
theorem emptied_blocksHeld {victim : SequenceId} {table : SequenceBlockTable} :
    (emptied s victim table).blocksHeld=emptiedAt s.blocksHeld victim := by
  funext k
  by_cases he : k=victim
  · subst he
    rw [blocksHeld_of_lookup emptied_lookup_self,emptiedAt,Function.update_self]
    rfl
  · rw [emptiedAt_of_ne he,KVCacheManager.blocksHeld,KVCacheManager.blocksHeld,emptied_lookup_ne he]

/-- A run of the eviction loop takes turns at the line, and frees what its
victims held. -/
theorem evicts_turns {l : VictimLine SequenceId} (he : Evicts needed requester s evicted t)
    (hl : ∀ blocks, l.line blocks=
      victimOrder s.policy blocks (others s.admissionOrder requester)) :
    Turns l needed s.freeBlocks s.blocksHeld evicted ∧
      t.freeBlocks=s.freeBlocks+(evicted.map s.blocksHeld).sum := by
  induction he with
  | enough _ => exact ⟨.stop,rfl⟩
  | stuck _ _ => exact ⟨.stop,rfl⟩
  | @evict s t victim table later hf hc hk _ ih =>
    obtain ⟨ht,hsum⟩ := ih hl
    have hfree : (emptied s victim table).freeBlocks=s.freeBlocks+s.blocksHeld victim := by
      rw [blocksHeld_of_lookup hk]
      change (table.blocks.reverse++s.allocator.free).length=s.allocator.free.length+_
      rw [List.length_append,List.length_reverse,Nat.add_comm]
    rw [hfree,emptied_blocksHeld] at ht hsum
    rw [chooseVictim_head,←hl] at hc
    obtain ⟨rest,hline⟩ := List.head?_eq_some_iff.mp hc
    have hpre := ht.isPrefix
    rw [l.line_tail _ _ _ hline] at hpre
    rw [sum_behind hline (fun k hm => hpre.subset hm)] at hsum
    refine ⟨.turn hf hline ht,?_⟩
    rw [hsum,List.map_cons,List.sum_cons,Nat.add_assoc]

end CudaForge.VictimOrder
