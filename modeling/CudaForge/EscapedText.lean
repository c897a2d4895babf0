import Mathlib.Tactic

/-!
# Quoted texts with escapes

Three symbols cannot stand in a quoted text as they are: the one that escapes,
the closing quote and the line break. They are replaced one kind after another
by an escape and a symbol that says which one it was. As the escape itself is
replaced first, reading from left to right gives the text back.
-/

namespace CudaForge.EscapedText

/-- The symbols that matter in a quoted text. -/
structure Marks (α : Type) where
  /-- What begins an escape. -/
  escape : α
  /-- What closes the text. -/
  quote : α
  /-- What ends a line. -/
  line : α
  /-- What stands for the end of a line behind an escape. -/
  letter : α
  /-- They can be told apart. -/
  distinct : [escape,quote,line,letter].Nodup

section Texts

variable {α : Type} [DecidableEq α] (m : Marks α)

/-- Every occurrence of a symbol gives way to a word. -/
def replaceAll (symbol : α) (word text : List α) : List α :=
  text.flatMap (fun c => if c=symbol then word else [c])

/-- The replacements, the one of the escape first. -/
def Marks.escapeText (text : List α) : List α :=
  replaceAll m.line [m.escape,m.letter]
    (replaceAll m.quote [m.escape,m.quote] (replaceAll m.escape [m.escape,m.escape] text))

/-- A quoted text is read up to the quote that closes it: the text, and what is
behind the quote. An escape before any other symbol stands for itself. -/
def Marks.readQuoted : List α → Option (List α×List α)
  | [] => none
  | [c] => if c=m.quote then some ([],[]) else none
  | c::d::rest =>
    if c=m.quote then some ([],d::rest)
    else if c=m.escape then
      let meant :=
        if d=m.escape ∨ d=m.quote then [d] else if d=m.letter then [m.line] else [c,d]
      (Marks.readQuoted rest).map fun (text,left) => (meant++text,left)
    else (Marks.readQuoted (d::rest)).map fun (text,left) => (c::text,left)

/-- What a single symbol becomes. -/
def Marks.escaped (c : α) : List α :=
  if c=m.escape then [m.escape,m.escape]
  else if c=m.quote then [m.escape,m.quote]
  else if c=m.line then [m.escape,m.letter]
  else [c]

omit [DecidableEq α] in
/-- The marks, pair by pair. -/
theorem Marks.apart : m.escape≠m.quote ∧ m.escape≠m.line ∧ m.escape≠m.letter ∧
    m.quote≠m.line ∧ m.quote≠m.letter ∧ m.line≠m.letter := by
  have h := m.distinct
  simp only [List.nodup_cons,List.mem_cons,List.not_mem_nil,or_false,not_or] at h
  tauto

/-- The three replacements act on each symbol on its own. -/
theorem Marks.escapeText_eq (text : List α) : m.escapeText text=text.flatMap m.escaped := by
  obtain ⟨heq,hel,_,hql,hqr,hlr⟩ := m.apart
  rw [escapeText,replaceAll,replaceAll,replaceAll,List.flatMap_assoc,List.flatMap_assoc]
  refine List.flatMap_congr fun c _ => ?_
  rw [escaped]
  by_cases he : c=m.escape
  · simp only [he,if_true,List.flatMap_cons,List.flatMap_nil,if_neg heq,if_neg hel,
      List.cons_append,List.nil_append]
  · by_cases hq : c=m.quote
    · simp only [hq,if_neg heq.symm,if_true,List.flatMap_cons,List.flatMap_nil,if_neg hel,
        if_neg hql,List.cons_append,List.nil_append,List.append_nil]
    · by_cases hl : c=m.line
      · simp only [hl,if_neg hel.symm,if_neg hql.symm,if_true,List.flatMap_cons,List.flatMap_nil,
          List.append_nil]
      · simp only [if_neg he,if_neg hq,if_neg hl,List.flatMap_cons,List.flatMap_nil,
          List.append_nil]

/-- An escaped text stays on its line. -/
theorem Marks.line_not_mem (text : List α) : m.line∉m.escapeText text := by
  obtain ⟨heq,hel,_,hql,_,hlr⟩ := m.apart
  rw [escapeText_eq,List.mem_flatMap]
  rintro ⟨c,_,hm⟩
  rw [escaped] at hm
  split at hm
  · simp only [List.mem_cons,List.not_mem_nil,hel.symm,or_self] at hm
  · split at hm
    · simp only [List.mem_cons,List.not_mem_nil,hel.symm,hql.symm,or_self] at hm
    · split at hm
      · simp only [List.mem_cons,List.not_mem_nil,hel.symm,hlr,or_self] at hm
      · next hl => exact hl (List.mem_singleton.mp hm).symm

/-- A symbol that is escaped is read as itself. -/
theorem Marks.readQuoted_escaped (c : α) {text : List α} (ht : text≠[]) :
    m.readQuoted (m.escaped c++text)=
      (m.readQuoted text).map fun (read,left) => (c::read,left) := by
  obtain ⟨heq,_,her,_,hqr,_⟩ := m.apart
  rw [escaped]
  by_cases he : c=m.escape
  · subst he
    rw [if_pos rfl,List.cons_append,List.cons_append,List.nil_append,readQuoted,if_neg heq,
      if_pos rfl,if_pos (Or.inl rfl)]
    rfl
  · rw [if_neg he]
    by_cases hq : c=m.quote
    · subst hq
      rw [if_pos rfl,List.cons_append,List.cons_append,List.nil_append,readQuoted,if_neg heq,
        if_pos rfl,if_pos (Or.inr rfl)]
      rfl
    · rw [if_neg hq]
      by_cases hl : c=m.line
      · subst hl
        rw [if_pos rfl,List.cons_append,List.cons_append,List.nil_append,readQuoted,if_neg heq,
          if_pos rfl,if_neg (not_or.mpr ⟨her.symm,hqr.symm⟩),if_pos rfl]
        rfl
      · obtain ⟨d,rest,rfl⟩ := List.exists_cons_of_ne_nil ht
        rw [if_neg hl,List.cons_append,List.nil_append,readQuoted,if_neg hq,if_neg he]

/-- Reading up to the quote gives the text back. -/
theorem Marks.readQuoted_escapeText (text rest : List α) :
    m.readQuoted (m.escapeText text++m.quote::rest)=some (text,rest) := by
  rw [escapeText_eq]
  induction text with
  | nil =>
    cases rest with
    | nil => exact if_pos rfl
    | cons d rest => exact if_pos rfl
  | cons c text ih =>
    have hne : text.flatMap m.escaped++m.quote::rest≠[] :=
      List.append_ne_nil_of_right_ne_nil _ (List.cons_ne_nil _ _)
    rw [List.flatMap_cons,List.append_assoc,m.readQuoted_escaped c hne,ih]
    rfl

end Texts

end CudaForge.EscapedText
