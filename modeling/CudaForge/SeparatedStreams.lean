import Mathlib.Tactic

/-!
# Separated streams in blocks

Documents that each end with a separator make up a stream, which is cut into blocks
of one length. Splitting what the blocks hold at the separators gives the documents
back, up to the one in which the last block ends.
-/

namespace CudaForge.SeparatedStreams

variable {α : Type}

/-- The first blocks of a stream. -/
def cut (size count : ℕ) (stream : List α) : List (List α) :=
  (List.range count).map fun block => (stream.drop (block*size)).take size

/-- The documents that end with a separator, and what comes behind the last one. -/
def split [DecidableEq α] (separator : α) : List α → List (List α)×List α
  | [] => ([],[])
  | x::stream =>
    if x=separator then ([]::(split separator stream).1,(split separator stream).2)
    else
      match (split separator stream).1 with
      | [] => ([],x::(split separator stream).2)
      | document::documents => ((x::document)::documents,(split separator stream).2)

/-- The stream of some documents. -/
def joined (separator : α) (documents : List (List α)) : List α :=
  documents.flatMap fun document => document++[separator]

variable {size count : ℕ} {stream : List α}

/-- The blocks hold the beginning of the stream. -/
theorem cut_flatten (size count : ℕ) (stream : List α) :
    (cut size count stream).flatten=stream.take (count*size) := by
  induction count with
  | zero => rw [cut,List.range_zero,List.map_nil,List.flatten_nil,Nat.zero_mul,List.take_zero]
  | succ count ih =>
    rw [cut] at ih ⊢
    rw [List.range_succ,List.map_append,List.flatten_append,ih,List.map_singleton,
      List.flatten_singleton,Nat.succ_mul,List.take_add]

/-- Each of them is full when the stream is long enough. -/
theorem length_of_mem_cut (h : count*size ≤ stream.length) {block : List α}
    (hm : block∈cut size count stream) : block.length=size := by
  obtain ⟨place,hp,rfl⟩ := List.mem_map.mp hm
  have hle : (place+1)*size ≤ count*size :=
    Nat.mul_le_mul_right size (List.mem_range.mp hp)
  rw [Nat.succ_mul] at hle
  rw [List.length_take,List.length_drop]
  omega

variable [DecidableEq α] {separator : α} {document : List α} {documents : List (List α)}

/-- Without a separator no document ends. -/
theorem split_open (h : separator∉document) : split separator document=([],document) := by
  induction document with
  | nil => rfl
  | cons x document ih =>
    have hne : x≠separator := fun he => h (he ▸ List.mem_cons_self)
    rw [split,if_neg hne,ih (fun hm => h (List.mem_cons_of_mem x hm))]

/-- The first document ends at the first separator. -/
theorem split_closed (h : separator∉document) (rest : List α) :
    split separator (document++separator::rest)=
      (document::(split separator rest).1,(split separator rest).2) := by
  induction document with
  | nil => rw [List.nil_append,split,if_pos rfl]
  | cons x document ih =>
    have hne : x≠separator := fun he => h (he ▸ List.mem_cons_self)
    rw [List.cons_append,split,if_neg hne,ih (fun hm => h (List.mem_cons_of_mem x hm))]

/-- Splitting the beginning of a stream gives the first documents, and the beginning of
the next one. -/
theorem split_prefix (h : ∀ document∈documents, separator∉document) {beginning : List α}
    (hb : beginning<+:joined separator documents) :
    (split separator beginning).1<+:documents ∧
      (split separator beginning).2<+:
        (documents.drop (split separator beginning).1.length).headD [] := by
  induction documents generalizing beginning with
  | nil =>
    have hnil : beginning=[] := List.prefix_nil.mp hb
    rw [hnil]
    exact ⟨List.prefix_rfl,List.prefix_rfl⟩
  | cons document documents ih =>
    have hfree := h document List.mem_cons_self
    have hsplit : joined separator (document::documents)=
        document++separator::joined separator documents := by
      rw [joined,List.flatMap_cons,List.append_assoc]
      rfl
    rw [hsplit] at hb
    rcases Nat.lt_or_ge document.length beginning.length with hlt | hge
    · -- the first document is complete
      obtain ⟨rest,hrest⟩ := List.prefix_of_prefix_length_le (List.prefix_append _ _) hb hlt.le
      rw [←hrest,List.prefix_append_right_inj] at hb
      cases rest with
      | nil =>
        rw [←hrest,List.append_nil] at hlt
        exact absurd hlt (Nat.lt_irrefl _)
      | cons x rest =>
        obtain ⟨hx,hb⟩ := List.cons_prefix_cons.mp hb
        obtain ⟨hdocuments,hopen⟩ := ih (fun d hd => h d (List.mem_cons_of_mem _ hd)) hb
        rw [←hrest,hx,split_closed hfree]
        exact ⟨List.cons_prefix_cons.mpr ⟨rfl,hdocuments⟩,hopen⟩
    · have hinside := List.prefix_of_prefix_length_le hb (List.prefix_append _ _) hge
      rw [split_open (fun hm => hfree (hinside.subset hm))]
      exact ⟨List.nil_prefix,hinside⟩

end CudaForge.SeparatedStreams
