import Mathlib.Data.List.AList

/-!
# Gathering what the entries of a keyed table hold

For an association list with distinct keys and a function listing what each
value holds, `gather` is the concatenation over all entries. Updating one
key moves exactly that key's share, up to the order of the entries.
-/

namespace CudaForge.KeyedTables

variable {κ τ γ : Type}

/-- Everything held by some entry, entry by entry, where what an entry holds
may depend on its key. -/
def shares (held : κ → τ → List γ) (tables : AList (fun _ : κ => τ)) : List γ :=
  tables.entries.flatMap (fun e => held e.1 e.2)

/-- Everything held by some entry, entry by entry. -/
def gather (held : τ → List γ) (tables : AList (fun _ : κ => τ)) : List γ :=
  tables.entries.flatMap (fun e => held e.2)

@[simp] theorem gather_empty (held : τ → List γ) :
    gather held (∅ : AList (fun _ : κ => τ))=[] := rfl

variable [DecidableEq κ]

/-- A written key contributes its new value, the others what they held. -/
theorem shares_insert (held : κ → τ → List γ) (key : κ) (value : τ)
    (tables : AList (fun _ : κ => τ)) :
    shares held (tables.insert key value)=held key value++shares held (tables.erase key) := rfl

/-- Erasing an absent key changes nothing. -/
theorem shares_erase_of_unknown (held : κ → τ → List γ) {key : κ}
    {tables : AList (fun _ : κ => τ)} (hk : key∉tables) :
    shares held (tables.erase key)=shares held tables := by
  have he : (tables.erase key).entries=tables.entries := List.kerase_of_notMem_keys hk
  simp only [shares,he]

/-- A present key's share can be split off. -/
theorem shares_perm_erase (held : κ → τ → List γ) {key : κ} {value : τ}
    {tables : AList (fun _ : κ => τ)} (hk : tables.lookup key=some value) :
    (shares held tables).Perm (held key value++shares held (tables.erase key)) := by
  have hm : key∈tables.entries.keys := by
    have hs : (tables.lookup key).isSome := by rw [hk]; rfl
    exact AList.lookup_isSome.mp hs
  obtain ⟨found,left,right,hl,he,hr⟩ := List.exists_of_kerase hm
  have hf : found=value := by
    have hd : List.dlookup key tables.entries=some found := by
      rw [he,List.dlookup_append,List.dlookup_eq_none.mpr hl]
      exact List.dlookup_cons_eq right key found
    exact Option.some.inj (hd.symm.trans hk)
  have hg : shares held (tables.erase key)=
      left.flatMap (fun e => held e.1 e.2)++right.flatMap (fun e => held e.1 e.2) := by
    change (List.kerase key tables.entries).flatMap (fun e => held e.1 e.2)=_
    rw [hr,List.flatMap_append]
  rw [hg,shares,he,List.flatMap_append,List.flatMap_cons,hf]
  exact List.perm_append_comm_assoc _ _ _

/-- So can the share of a key that may be absent, when an absent one stands
for a value that holds nothing. -/
theorem shares_perm_getD (held : κ → τ → List γ) (key : κ) {default : τ}
    (hd : held key default=[]) (tables : AList (fun _ : κ => τ)) :
    (shares held tables).Perm
      (held key ((tables.lookup key).getD default)++shares held (tables.erase key)) := by
  cases hk : tables.lookup key with
  | some value => exact shares_perm_erase held hk
  | none =>
    rw [Option.getD_none,hd,List.nil_append,
      shares_erase_of_unknown held (AList.lookup_eq_none.mp hk)]

/-- A written key contributes its new value, the others what they held. -/
theorem gather_insert (held : τ → List γ) (key : κ) (value : τ)
    (tables : AList (fun _ : κ => τ)) :
    gather held (tables.insert key value)=held value++gather held (tables.erase key) := rfl

/-- Erasing an absent key changes nothing. -/
theorem gather_erase_of_unknown (held : τ → List γ) {key : κ} {tables : AList (fun _ : κ => τ)}
    (hk : key∉tables) : gather held (tables.erase key)=gather held tables :=
  shares_erase_of_unknown (fun _ => held) hk

/-- A present key's share can be split off. -/
theorem gather_perm_erase (held : τ → List γ) {key : κ} {value : τ}
    {tables : AList (fun _ : κ => τ)} (hk : tables.lookup key=some value) :
    (gather held tables).Perm (held value++gather held (tables.erase key)) :=
  shares_perm_erase (fun _ => held) hk

/-- Entries are exactly what a lookup finds. -/
theorem mem_entries_iff {key : κ} {value : τ} {tables : AList (fun _ : κ => τ)} :
    (⟨key,value⟩ : Sigma fun _ : κ => τ)∈tables.entries ↔ tables.lookup key=some value :=
  AList.mem_lookup_iff.symm

/-- Something is held when some looked-up value holds it. -/
theorem mem_shares {held : κ → τ → List γ} {tables : AList (fun _ : κ => τ)} {x : γ} :
    x∈shares held tables ↔ ∃ key value, tables.lookup key=some value ∧ x∈held key value := by
  simp only [shares,List.mem_flatMap]
  constructor
  · rintro ⟨⟨key,value⟩,he,hx⟩
    exact ⟨key,value,mem_entries_iff.mp he,hx⟩
  · rintro ⟨key,value,he,hx⟩
    exact ⟨⟨key,value⟩,mem_entries_iff.mpr he,hx⟩

/-- Something is gathered when some looked-up value holds it. -/
theorem mem_gather {held : τ → List γ} {tables : AList (fun _ : κ => τ)} {x : γ} :
    x∈gather held tables ↔ ∃ key value, tables.lookup key=some value ∧ x∈held value :=
  @mem_shares κ τ γ _ (fun _ => held) tables x

/-- A sum over all entries but one key's is the sum over the erased table. -/
theorem filter_ne_eq_erase (key : κ) (tables : AList (fun _ : κ => τ)) :
    tables.entries.filter (fun e => decide (e.1≠key))=(tables.erase key).entries := by
  change _=List.kerase key tables.entries
  have hn := tables.nodupKeys
  revert hn
  induction tables.entries with
  | nil => intro _; rfl
  | cons e rest ih =>
    intro hn
    have hc := List.nodupKeys_cons.mp hn
    by_cases he : e.1=key
    · have hr : ∀ a∈rest, decide (a.1≠key)=true := by
        intro a ha
        have hne : a.1≠e.1 := fun h => hc.1 (h ▸ List.mem_map_of_mem ha)
        exact decide_eq_true (he ▸ hne)
      rw [List.filter_cons_of_neg (by simp only [he,ne_eq,not_true,decide_false,Bool.false_eq_true,
        not_false_eq_true]),List.filter_eq_self.mpr hr,List.kerase_cons_eq he.symm]
    · rw [List.filter_cons_of_pos (by simp only [ne_eq,he,not_false_eq_true,decide_true]),
        List.kerase_cons_ne (fun h => he h.symm),ih hc.2]

end CudaForge.KeyedTables
