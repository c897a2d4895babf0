import CudaForge.CppLexing

/-!
# Stripping comments for the CUDA lint

`strip_comments` takes two passes of a regular expression for a lexer: one
removes block comments wherever their opener stands, the other cuts each
line at two slashes. What it should return is defined over the tokens of the
text. The two agree on every text in which no opener misleads a pass; a line
comment with an opener in it is enough to swallow code.
-/

namespace CudaForge.CommentStripping

open CppLexing

/-- The characters `str.splitlines` breaks at. -/
def isBreak (c : Char) : Bool :=
  decide (c ∈ ['\n','\r','\x0b','\x0c','\x1c','\x1d','\x1e','\u0085','\u2028','\u2029'])

section Lines

variable {α : Type}

/-- Put one more item in front of the first line. -/
def onFirst (x : α) : List (List α) → List (List α)
  | [] => [[x]]
  | line::lines => (x::line)::lines

/-- `str.splitlines`, over items that each have a character. A carriage
return before a line feed breaks with it. -/
def splitLines (key : α → Char) : List α → List (List α)
  | [] => []
  | x::xs =>
    if key x = '\r' ∧ xs.head?.map key=some '\n' then splitLines key xs
    else if isBreak (key x) then []::splitLines key xs
    else onFirst x (splitLines key xs)

end Lines

/-- How far it is to the end of the first `*/`. -/
def closeLength : List Char → Option ℕ
  | [] => none
  | c::text =>
    if c = '*' ∧ text.head?=some '/' then some 2 else (closeLength text).map (·+1)

/-- The first pass: every match of `/\*.*?\*/` becomes its line feeds. The
first argument counts characters of a match still to skip. -/
def withoutBlocks : ℕ → List Char → List Char
  | _,[] => []
  | skip+1,_::text => withoutBlocks skip text
  | 0,c::text =>
    match if c = '/' ∧ text.head?=some '*' then closeLength text.tail else none with
    | some n => List.replicate (((c::text).take (n+2)).count '\n') '\n'++
        withoutBlocks (n+1) text
    | none => c::withoutBlocks 0 text

/-- The second pass: a line up to its first `//`. -/
def cutLine : List Char → List Char
  | [] => []
  | c::line => if c = '/' ∧ line.head?=some '/' then [] else c::cutLine line

/-- Blank out comment bodies. -/
def stripComments (text : List Char) : List (List Char) :=
  (splitLines id (withoutBlocks 0 text)).map cutLine

/-- Each character of some tokens, with the kind of its token. -/
def marks (ts : List Token) : List (Char×Kind) :=
  ts.flatMap fun t => t.text.map fun c => (c,t.kind)

/-- Whether characters of this kind lie outside comments. -/
def outsideComment : Kind → Bool
  | .code => true
  | .literal => true
  | .lineComment => false
  | .blockComment => false

/-- The characters of a line that lie outside comments. -/
def keep (line : List (Char×Kind)) : List Char :=
  (line.filter fun m => outsideComment m.2).map Prod.fst

/-- The lines of a text, each without its comments. -/
def codeLines (text : List Char) : List (List Char) :=
  (splitLines Prod.fst (marks (tokens text))).map keep

/-- The line breaks in a text. -/
def breaks : List Char → ℕ
  | [] => 0
  | c::text =>
    if c = '\r' ∧ text.head?=some '\n' then breaks text
    else if isBreak c then breaks text+1
    else breaks text

/-- Whether a pass finds a comment that begins in a text. -/
def opens (after : List Char) : List Char → Bool
  | [] => false
  | c::text =>
    (decide (c = '/') && (decide ((text++after).head?=some '/') ||
      (decide ((text++after).head?=some '*') && (closeLength (text++after).tail).isSome))) ||
      opens after text

/-- Whether a text, read by the first pass, ends inside a block comment. -/
def leavesOpen : ℕ → List Char → Bool
  | _,[] => false
  | skip+1,_::text => leavesOpen skip text
  | 0,c::text =>
    if c = '/' ∧ text.head?=some '*' then
      match closeLength text.tail with
      | some n => leavesOpen (n+1) text
      | none => true
    else leavesOpen 0 text

/-- The lines of the first pass's result, cut. -/
def cutLines (text : List Char) : List (List Char) := (splitLines id text).map cutLine

/-- A carriage return at the end comes before a line feed only if it did
before the first pass. -/
def keepsReturn (after text : List Char) : Bool :=
  decide (text.getLast?=some '\r' → (withoutBlocks 0 after).head?=some '\n' →
    after.head?=some '\n')

/-- A token that misleads no pass, given the text behind it.

A carriage return is not joined with a line feed of a block comment behind
it. A literal has no opener of a comment in it. A line comment leaves no block
comment open that is closed later, and without those that are closed in it each
line of it is cut to nothing; that is so where it has one line and still begins
with two slashes, or where nothing of it stands on the further ones. A block
comment has its opener and its first closer as they are, and breaks lines at
line feeds only. -/
def fairToken (after : List Char) (t : Token) : Bool :=
  match t.kind with
  | .code => keepsReturn after t.text
  | .literal => keepsReturn after t.text && !opens after t.text
  | .lineComment => (!leavesOpen 0 t.text || (closeLength after).isNone) &&
      decide (cutLines (withoutBlocks 0 t.text++after.take 1)=
        (splitLines id (t.text++after.take 1)).map fun _ => [])
  | .blockComment => decide (t.text.take 2=['/','*']) &&
      decide (closeLength (t.text.drop 2)=some (t.text.length-2)) &&
      decide (breaks t.text=t.text.count '\n')

/-- Tokens none of which misleads a pass. -/
def fair : List Token → Bool
  | [] => true
  | t::ts => fairToken (spell ts) t && fair ts

/-- Block comments on one line and nothing else. -/
def bare (ts : List Token) : Bool :=
  ts.all fun t => decide (t.kind=.blockComment) && decide (breaks t.text=0)

/-- Whether a token stands on the line of the block comments that end the
text behind it. -/
def holdsLine (ts : List Token) (t : Token) : Bool :=
  if t.kind=.blockComment then decide (breaks t.text=0)
  else decide (ts=[]) || !(t.text.getLast?.any isBreak)

/-- Tokens that do not end in block comments with their last line to
themselves. -/
def standing : List Token → Bool
  | [] => true
  | t::ts => (!bare ts || holdsLine ts t) && standing ts

/-- A text in which no opener misleads a pass. -/
def plain (text : List Char) : Bool :=
  fair (tokens text) && standing (tokens text) && (decide (text=[]) || !bare (tokens text))

section Blocks

theorem closeLength_le {text : List Char} {n : ℕ} (h : closeLength text=some n) :
    n≤text.length := by
  induction text generalizing n with
  | nil => cases h
  | cons c text ih =>
    rw [closeLength] at h
    split_ifs at h with hc
    · have hn : text≠[] := by
        intro he
        rw [he] at hc
        cases hc.2
      have hp := List.length_pos_iff.mpr hn
      rw [List.length_cons,←Option.some.inj h]
      omega
    · obtain ⟨m,hm,hn⟩ := Option.map_eq_some_iff.mp h
      rw [List.length_cons,←hn]
      exact Nat.succ_le_succ (ih hm)

/-- A closer is found wherever the text goes on. -/
theorem closeLength_append {text : List Char} {n : ℕ} (h : closeLength text=some n)
    (after : List Char) : closeLength (text++after)=some n := by
  induction text generalizing n with
  | nil => cases h
  | cons c text ih =>
    rw [closeLength] at h
    rw [List.cons_append,closeLength]
    split_ifs at h with hc
    · have hn : (text++after).head?=some '/' := by
        rw [List.head?_append,hc.2]
        rfl
      rw [if_pos ⟨hc.1,hn⟩]
      exact h
    · obtain ⟨m,hm,hn⟩ := Option.map_eq_some_iff.mp h
      have hne : ¬(c = '*' ∧ (text++after).head?=some '/') := by
        intro hs
        refine hc ⟨hs.1,?_⟩
        cases text with
        | nil => cases hm
        | cons d text => exact hs.2
      rw [if_neg hne,ih hm,←hn]
      rfl

/-- Without a closer in either part there is none in both, unless one
straddles. -/
theorem closeLength_none {text after : List Char} (ht : closeLength text=none)
    (ha : closeLength after=none) (hs : after.head?≠some '/') :
    closeLength (text++after)=none := by
  induction text with
  | nil => exact ha
  | cons c text ih =>
    rw [closeLength] at ht
    rw [List.cons_append,closeLength]
    split_ifs at ht with hc
    have hne : ¬(c = '*' ∧ (text++after).head?=some '/') := by
      intro hb
      cases text with
      | nil => exact hs hb.2
      | cons d text => exact hc hb
    rw [if_neg hne,ih (Option.map_eq_none_iff.mp ht)]
    rfl

/-- A closer at the very end ends in a slash. -/
theorem closeLength_last {text : List Char} (h : closeLength text=some text.length) :
    text.getLast?=some '/' := by
  induction text with
  | nil => cases h
  | cons c text ih =>
    rw [closeLength] at h
    split_ifs at h with hc
    · rw [List.length_cons] at h
      cases text with
      | nil => cases hc.2
      | cons d text =>
        have hl : text.length=0 := by
          have he := Option.some.inj h
          rw [List.length_cons] at he
          omega
        rw [List.length_eq_zero_iff.mp hl,Option.some.inj hc.2]
        rfl
    · obtain ⟨m,hm,hn⟩ := Option.map_eq_some_iff.mp h
      rw [List.length_cons,Nat.add_right_cancel_iff] at hn
      rw [hn] at hm
      cases text with
      | nil => cases hm
      | cons d text => exact ih hm

/-- The rest of a match is skipped. -/
theorem withoutBlocks_skip (text after : List Char) :
    withoutBlocks text.length (text++after)=withoutBlocks 0 after := by
  induction text with
  | nil => rfl
  | cons c text ih =>
    rw [List.length_cons,List.cons_append,withoutBlocks]
    exact ih

/-- The first pass keeps what no block comment begins in. -/
theorem withoutBlocks_kept {after text : List Char} (h : opens after text=false) :
    withoutBlocks 0 (text++after)=text++withoutBlocks 0 after := by
  induction text with
  | nil => rfl
  | cons c text ih =>
    rw [opens,Bool.or_eq_false_iff] at h
    rw [List.cons_append,withoutBlocks]
    have hn : (if c = '/' ∧ (text++after).head?=some '*' then closeLength (text++after).tail
        else none)=none := by
      split_ifs with hc
      · have ho := h.1
        rw [decide_eq_true hc.1,decide_eq_true hc.2,Bool.true_and,Bool.true_and,
          Bool.or_eq_false_iff] at ho
        exact Option.isNone_iff_eq_none.mp (Option.isSome_eq_false_iff.mp ho.2)
      · rfl
    rw [hn,List.cons_append,ih h.2]

/-- A block comment leaves its line feeds. -/
theorem withoutBlocks_block {body : List Char} (h : closeLength body=some body.length)
    (after : List Char) :
    withoutBlocks 0 ('/':: '*'::body++after)=
      List.replicate (('/':: '*'::body).count '\n') '\n'++withoutBlocks 0 after := by
  rw [List.cons_append,List.cons_append,withoutBlocks,List.head?_cons,List.tail_cons,
    if_pos ⟨rfl,rfl⟩,closeLength_append h]
  have ht : ('/':: '*'::(body++after)).take (body.length+2)= '/':: '*'::body := by
    rw [List.take_succ_cons,List.take_succ_cons,List.take_left]
  have hs := withoutBlocks_skip ('*'::body) after
  rw [List.length_cons,List.cons_append] at hs
  simp only [ht,hs]

/-- The first pass treats a text by itself when no match runs past its
end. -/
theorem withoutBlocks_append {after : List Char} (hs : after.head?≠some '/')
    (hb : after.head?≠some '*') (text : List Char) : ∀ skip, skip≤text.length →
      (leavesOpen skip text=false ∨ closeLength after=none) →
      withoutBlocks skip (text++after)=withoutBlocks skip text++withoutBlocks 0 after := by
  induction text with
  | nil =>
    intro skip hl _
    rw [Nat.le_zero.mp hl]
    rfl
  | cons c text ih =>
    intro skip hl ho
    cases skip with
    | succ skip =>
      rw [List.cons_append,withoutBlocks,withoutBlocks]
      exact ih skip (Nat.le_of_succ_le_succ hl) ho
    | zero =>
      rw [leavesOpen] at ho
      rw [List.cons_append,withoutBlocks,withoutBlocks]
      by_cases hc : c = '/' ∧ text.head?=some '*'
      · rw [if_pos hc] at ho ⊢
        cases text with
        | nil => cases hc.2
        | cons d rest =>
          rw [if_pos ⟨hc.1,hc.2⟩]
          simp only [List.cons_append,List.tail_cons] at ho ih ⊢
          cases hn : closeLength rest with
          | some n =>
            have hle := closeLength_le hn
            rw [hn] at ho
            rw [closeLength_append hn]
            have ht : (c::d::(rest++after)).take (n+2)=(c::d::rest).take (n+2) := by
              rw [List.take_succ_cons,List.take_succ_cons,List.take_succ_cons,
                List.take_succ_cons,List.take_append_of_le_length hle]
            simp only [ht]
            rw [ih (n+1) (Nat.succ_le_succ hle) ho,List.append_assoc]
          | none =>
            rw [hn] at ho
            have ha : closeLength after=none := by
              rcases ho with ho | ho
              · cases ho
              · exact ho
            rw [closeLength_none hn ha hs]
            simp only
            rw [ih 0 (Nat.zero_le _) (Or.inr ha),List.cons_append]
      · have hne : ¬(c = '/' ∧ (text++after).head?=some '*') := by
          intro hd
          cases text with
          | nil => exact hb hd.2
          | cons d text => exact hc hd
        rw [if_neg hc] at ho ⊢
        rw [if_neg hne]
        simp only
        rw [ih 0 (Nat.zero_le _) ho,List.cons_append]

/-- What a token leaves to the second pass. -/
def leftover (t : Token) : List Char :=
  match t.kind with
  | .code => t.text
  | .literal => t.text
  | .lineComment => withoutBlocks 0 t.text
  | .blockComment => List.replicate (t.text.count '\n') '\n'

/-- No pass finds a comment where no slash is followed by a slash or a
star. -/
theorem opens_of_slashed {after text : List Char} (h : slashed after text=false) :
    opens after text=false := by
  induction text with
  | nil => rfl
  | cons c text ih =>
    rw [slashed,Bool.or_eq_false_iff] at h
    rw [opens,ih h.2,Bool.or_false]
    cases hc : decide (c = '/') with
    | false => rfl
    | true =>
      rw [hc,Bool.true_and,Bool.or_eq_false_iff] at h
      rw [h.1.1,h.1.2]
      rfl

/-- A fair block comment is an opener, and a body up to its closer. -/
theorem fair_block {after : List Char} {t : Token} (hk : t.kind=.blockComment)
    (hf : fairToken after t=true) :
    ∃ body, t.text= '/':: '*'::body ∧ closeLength body=some body.length ∧
      breaks t.text=t.text.count '\n' := by
  rw [fairToken,hk] at hf
  simp only [Bool.and_eq_true,decide_eq_true_eq] at hf
  obtain ⟨⟨ho,hc⟩,hb⟩ := hf
  have ht : t.text= '/':: '*'::t.text.drop 2 := by
    have h := List.take_append_drop 2 t.text
    rw [ho] at h
    exact h.symm
  refine ⟨t.text.drop 2,ht,?_,hb⟩
  rw [List.length_drop]
  exact hc

/-- The first pass works token by token. -/
theorem withoutBlocks_spell {ts : List Token} (hl : Lexed ts) (hf : fair ts=true) :
    withoutBlocks 0 (spell ts)=ts.flatMap leftover := by
  induction ts with
  | nil => rfl
  | cons t ts ih =>
    rw [fair,Bool.and_eq_true] at hf
    have hr := ih hl.2.2.2 hf.2
    have hs : spell (t::ts)=t.text++spell ts := rfl
    rw [List.flatMap_cons,←hr,hs]
    cases hk : t.kind with
    | code =>
      rw [withoutBlocks_kept (opens_of_slashed (hl.2.1 hk)),leftover,hk]
    | literal =>
      have hf' := hf.1
      rw [fairToken,hk] at hf'
      simp only [Bool.and_eq_true,Bool.not_eq_true'] at hf'
      rw [withoutBlocks_kept hf'.2,leftover,hk]
    | lineComment =>
      have hn := hl.2.2.1 hk
      have hf' := hf.1
      rw [fairToken,hk] at hf'
      simp only [Bool.and_eq_true,Bool.or_eq_true,Bool.not_eq_true',Option.isNone_iff_eq_none]
        at hf'
      rw [withoutBlocks_append ?_ ?_ t.text 0 (Nat.zero_le _) hf'.1,leftover,hk]
      · intro he
        exact absurd (hn '/' he) (by decide)
      · intro he
        exact absurd (hn '*' he) (by decide)
    | blockComment =>
      obtain ⟨body,ht,hc,_⟩ := fair_block hk hf.1
      rw [leftover,hk,ht]
      exact withoutBlocks_block hc (spell ts)

end Blocks

section Breaks

variable {α : Type} {key : α → Char}

/-- Characters without a break go in front of the first line. -/
theorem splitLines_append {first : List α} (hb : ∀ x ∈ first, isBreak (key x)=false)
    (rest : List α) : splitLines key (first++rest)=first.foldr onFirst (splitLines key rest) := by
  induction first with
  | nil => rfl
  | cons x first ih =>
    have hx := hb x List.mem_cons_self
    have hr : ¬(key x = '\r' ∧ (first++rest).head?.map key=some '\n') := by
      intro h
      rw [h.1] at hx
      exact absurd hx (by decide)
    rw [List.cons_append,splitLines,if_neg hr,hx,if_neg Bool.false_ne_true,
      ih fun y hy => hb y (List.mem_cons_of_mem x hy),List.foldr_cons]

/-- Or they are a line. -/
theorem foldr_onFirst_nil {first : List α} (hne : first≠[]) :
    first.foldr onFirst []=[first] := by
  cases first with
  | nil => exact absurd rfl hne
  | cons x first =>
    rw [List.foldr_cons]
    induction first generalizing x with
    | nil => rfl
    | cons y first ih =>
      rw [List.foldr_cons,ih y (List.cons_ne_nil _ _)]
      rfl

/-- A break at the front ends an empty line. -/
theorem splitLines_break {rest : List α} (hb : ∃ c ∈ rest.head?.map key, isBreak c=true) :
    ∃ lines, splitLines key rest=[]::lines := by
  induction rest with
  | nil =>
    obtain ⟨c,hc,_⟩ := hb
    cases hc
  | cons x rest ih =>
    obtain ⟨c,hc,hb⟩ := hb
    have hx : key x=c := Option.some.inj hc
    rw [splitLines]
    split_ifs with hr hx'
    · exact ih ⟨'\n',hr.2,by decide⟩
    · exact ⟨_,rfl⟩
    · rw [hx] at hx'
      exact absurd hb hx'

/-- Some text has some line. -/
theorem splitLines_ne {xs : List α} (h : xs≠[]) : splitLines key xs≠[] := by
  cases xs with
  | nil => exact absurd rfl h
  | cons x xs =>
    rw [splitLines]
    split_ifs with hr hb
    · obtain ⟨lines,hl⟩ : ∃ lines, splitLines key xs=[]::lines :=
        splitLines_break ⟨'\n',hr.2,by decide⟩
      rw [hl]
      exact List.cons_ne_nil _ _
    · exact List.cons_ne_nil _ _
    · cases splitLines key xs with
      | nil => exact List.cons_ne_nil _ _
      | cons line lines => exact List.cons_ne_nil _ _

/-- A break behind some text ends its last line, and the lines behind it are
those of what follows. -/
theorem splitLines_split {rest : List α} (hb : ∃ c ∈ rest.head?.map key, isBreak c=true)
    (first : List α) : splitLines key (first++rest)=
      splitLines key (first++rest.take 1)++(splitLines key rest).tail := by
  obtain ⟨c,hc,hbreak⟩ := id hb
  cases rest with
  | nil => cases hc
  | cons y rest =>
    have hy : isBreak (key y)=true := by
      rw [Option.some.inj hc]
      exact hbreak
    have htake : (y::rest).take 1=[y] := rfl
    rw [htake]
    induction first with
    | nil =>
      obtain ⟨lines,hl⟩ := splitLines_break hb
      have hn : ¬(key y = '\r' ∧ ([] : List α).head?.map key=some '\n') := fun h => by cases h.2
      rw [List.nil_append,List.nil_append,hl,splitLines,if_neg hn,if_pos hy]
      rfl
    | cons x first ih =>
      have hhead : ((first++y::rest).head?.map key)=((first++[y]).head?.map key) := by
        cases first <;> rfl
      rw [List.cons_append,List.cons_append,splitLines,splitLines,hhead,ih]
      split_ifs
      · rfl
      · rfl
      · have hne : splitLines key (first++[y])≠[] :=
          splitLines_ne (List.append_ne_nil_of_right_ne_nil _ (List.cons_ne_nil _ _))
        cases hs : splitLines key (first++[y]) with
        | nil => exact absurd hs hne
        | cons line lines => rfl

/-- Marking the characters of a text does not move its lines. -/
theorem length_splitLines (xs : List α) :
    (splitLines key xs).length=(splitLines id (xs.map key)).length := by
  have hfirst : ∀ (x : α) (c : Char) (lines : List (List α)) (others : List (List Char)),
      lines.length=others.length → (onFirst x lines).length=(onFirst c others).length := by
    intro x c lines others h
    cases lines with
    | nil =>
      cases others with
      | nil => rfl
      | cons _ _ => cases h
    | cons _ _ =>
      cases others with
      | nil => cases h
      | cons _ _ => exact h
  induction xs with
  | nil => rfl
  | cons x xs ih =>
    have hhead : ((xs.map key).head?.map id)=xs.head?.map key := by
      rw [Option.map_id_apply,List.head?_map]
    rw [List.map_cons,splitLines,splitLines,hhead,id_eq]
    split_ifs
    · exact ih
    · exact congrArg Nat.succ ih
    · exact hfirst x (key x) _ _ ih

/-- A line has no break in it. -/
theorem mem_splitLines {xs line : List α} (h : line ∈ splitLines key xs) {x : α}
    (hx : x ∈ line) : x ∈ xs ∧ isBreak (key x)=false := by
  induction xs generalizing line with
  | nil => exact absurd h List.not_mem_nil
  | cons y xs ih =>
    have hlater : ∀ {line : List α}, line ∈ splitLines key xs → x ∈ line →
        x ∈ y::xs ∧ isBreak (key x)=false :=
      fun hl hm => ⟨List.mem_cons_of_mem y (ih hl hm).1,(ih hl hm).2⟩
    rw [splitLines] at h
    split_ifs at h with hr hb
    · exact hlater h hx
    · rcases List.mem_cons.mp h with rfl | h
      · exact absurd hx List.not_mem_nil
      · exact hlater h hx
    · have hy : y ∈ y::xs ∧ isBreak (key y)=false :=
        ⟨List.mem_cons_self,Bool.eq_false_iff.mpr hb⟩
      cases hs : splitLines key xs with
      | nil =>
        rw [hs] at h
        rw [List.mem_singleton.mp h] at hx
        rw [List.mem_singleton.mp hx]
        exact hy
      | cons first lines =>
        rw [hs] at h hlater
        rcases List.mem_cons.mp h with rfl | h
        · rcases List.mem_cons.mp hx with rfl | hx
          · exact hy
          · exact hlater List.mem_cons_self hx
        · exact hlater (List.mem_cons_of_mem first h) hx

/-- The first line begins as the text does. -/
theorem head_of_splitLines {rest line : List α} {lines : List (List α)}
    (h : splitLines key rest=line::lines) {x : α} (hx : line.head?=some x) :
    rest.head?=some x := by
  cases rest with
  | nil => cases h
  | cons y rest =>
    rw [splitLines] at h
    split_ifs at h with hr hb
    · obtain ⟨later,hl⟩ : ∃ later, splitLines key rest=[]::later :=
        splitLines_break ⟨'\n',hr.2,by decide⟩
      rw [hl] at h
      rw [←(List.cons.inj h).1] at hx
      cases hx
    · rw [←(List.cons.inj h).1] at hx
      cases hx
    · cases hs : splitLines key rest with
      | nil =>
        rw [hs] at h
        rw [←(List.cons.inj h).1] at hx
        exact hx
      | cons first later =>
        rw [hs] at h
        rw [←(List.cons.inj h).1] at hx
        exact hx

end Breaks

section Agreement

variable {ms : List (Char×Kind)} {text : List Char}

/-- The lines of marked characters, without the comments. -/
def keptLines (ms : List (Char×Kind)) : List (List Char) :=
  (splitLines Prod.fst ms).map keep

theorem keep_cons {c : Char} {kind : Kind} (hk : outsideComment kind=true)
    (line : List (Char×Kind)) : keep ((c,kind)::line)=c::keep line := by
  have hf : ((c,kind)::line).filter (fun m => outsideComment m.2)=
      (c,kind)::line.filter fun m => outsideComment m.2 := List.filter_cons_of_pos hk
  rw [keep,hf,List.map_cons]
  rfl

theorem keep_cons_comment {c : Char} {kind : Kind} (hk : outsideComment kind=false)
    (line : List (Char×Kind)) : keep ((c,kind)::line)=keep line := by
  have hf : ((c,kind)::line).filter (fun m => outsideComment m.2)=
      line.filter fun m => outsideComment m.2 := by
    apply List.filter_cons_of_neg
    rw [hk]
    exact Bool.false_ne_true
  rw [keep,hf]
  rfl

theorem cutLine_cons {c : Char} {line : List Char}
    (h : ¬(c = '/' ∧ line.head?=some '/')) : cutLine (c::line)=c::cutLine line := by
  rw [cutLine,if_neg h]

theorem cutLine_single (c : Char) : cutLine [c]=[c] := by
  apply cutLine_cons
  intro h
  cases h.2

/-- One more character outside comments, before lines that agree. -/
theorem kept_cons {c : Char} {kind : Kind} (hk : outsideComment kind=true)
    (hcr : c = '\r' → (ms.head?.map Prod.fst=some '\n' ↔ text.head?=some '\n'))
    (hslash : ¬(c = '/' ∧ text.head?=some '/')) (h : keptLines ms=cutLines text) :
    keptLines ((c,kind)::ms)=cutLines (c::text) := by
  have hid : (text.head?.map id)=text.head? := Option.map_id_apply
  rw [keptLines,cutLines,splitLines,splitLines,hid]
  simp only [id_eq]
  by_cases hr : c = '\r' ∧ ms.head?.map Prod.fst=some '\n'
  · rw [if_pos hr,if_pos ⟨hr.1,(hcr hr.1).mp hr.2⟩]
    exact h
  · have hr' : ¬(c = '\r' ∧ text.head?=some '\n') := by
      intro hc
      exact hr ⟨hc.1,(hcr hc.1).mpr hc.2⟩
    rw [if_neg hr,if_neg hr']
    by_cases hb : isBreak c=true
    · rw [if_pos hb,if_pos hb,List.map_cons,List.map_cons]
      exact congrArg (List.cons []) h
    · rw [if_neg hb,if_neg hb]
      cases hm : splitLines Prod.fst ms with
      | nil =>
        cases ht : splitLines id text with
        | nil =>
          rw [onFirst,onFirst,List.map_singleton,List.map_singleton,keep_cons hk,cutLine_single]
          rfl
        | cons line lines =>
          rw [keptLines,cutLines,hm,ht] at h
          cases h
      | cons marked later =>
        cases ht : splitLines id text with
        | nil =>
          rw [keptLines,cutLines,hm,ht] at h
          cases h
        | cons line lines =>
          rw [keptLines,cutLines,hm,ht,List.map_cons,List.map_cons] at h
          obtain ⟨hfirst,hlater⟩ := List.cons.inj h
          have hcut : cutLine (c::line)=c::cutLine line := by
            apply cutLine_cons
            intro hc
            exact hslash ⟨hc.1,head_of_splitLines ht hc.2⟩
          rw [onFirst,onFirst,List.map_cons,List.map_cons,keep_cons hk,hcut,hfirst,hlater]

/-- One character outside comments that ends no line, before block comments
that are all there is. -/
theorem kept_alone {c : Char} {kind : Kind} (hk : outsideComment kind=true)
    (hb : isBreak c=false) (hm : keptLines ms=[[]]) :
    keptLines ((c,kind)::ms)=cutLines [c] := by
  have hr : ¬(c = '\r' ∧ ms.head?.map Prod.fst=some '\n') := by
    intro h
    rw [h.1] at hb
    exact absurd hb (by decide)
  have hr' : ¬(id c = '\r' ∧ ([] : List Char).head?.map id=some '\n') := by
    intro h
    cases h.2
  have hb' : ¬isBreak c=true := by
    rw [hb]
    exact Bool.false_ne_true
  rw [keptLines,cutLines,splitLines,splitLines,if_neg hr,if_neg hr',if_neg hb',
    id_eq,if_neg hb']
  rw [keptLines] at hm
  cases hs : splitLines Prod.fst ms with
  | nil =>
    rw [hs] at hm
    cases hm
  | cons line lines =>
    rw [hs,List.map_cons] at hm
    obtain ⟨hl,hn⟩ := List.cons.inj hm
    rw [splitLines,onFirst,onFirst,List.map_cons,List.map_singleton,keep_cons hk,hl,hn,
      cutLine_single]

/-- A text outside comments, before lines that agree or before block comments
that are all there is. -/
theorem kept_text {kind : Kind} (hk : outsideComment kind=true) (first : List Char) :
    first≠[] → (first.getLast?=some '\r' →
      (ms.head?.map Prod.fst=some '\n' ↔ text.head?=some '\n')) →
    (∀ before behind, first=before++ '/'::behind → (behind++text).head?≠some '/') →
    (keptLines ms=cutLines text ∨
      keptLines ms=[[]] ∧ text=[] ∧ first.getLast?.any isBreak=false) →
    keptLines (first.map (fun c => (c,kind))++ms)=cutLines (first++text) := by
  induction first with
  | nil =>
    intro hne
    exact absurd rfl hne
  | cons c first ih =>
    intro _ hcr ho h
    have hslash : ¬(c = '/' ∧ (first++text).head?=some '/') := by
      intro hc
      exact ho [] first (by rw [hc.1]; rfl) hc.2
    cases first with
    | nil =>
      rw [List.map_cons,List.map_nil,List.cons_append,List.cons_append,List.nil_append,
        List.nil_append]
      rcases h with h | ⟨hm,ht,hb⟩
      · refine kept_cons hk ?_ hslash h
        intro hc
        exact hcr (by rw [hc]; rfl)
      · rw [ht]
        exact kept_alone hk hb hm
    | cons d first =>
      rw [List.map_cons,List.cons_append,List.cons_append]
      refine kept_cons hk ?_ hslash ?_
      · intro _
        exact Iff.rfl
      · refine ih (List.cons_ne_nil _ _) hcr ?_ h
        intro before behind he
        exact ho (c::before) behind (by rw [he]; rfl)

/-- There is nothing to keep in the lines of a comment and of a break behind
it. -/
theorem keptLines_comment {kind : Kind} (hk : outsideComment kind=false) (first : List Char)
    {behind : List (Char×Kind)} (hb : ∀ m ∈ behind, isBreak m.1=true) :
    keptLines (first.map (fun c => (c,kind))++behind)=
      (splitLines id (first++behind.map Prod.fst)).map fun _ => [] := by
  have hchars : (first.map (fun c => (c,kind))++behind).map Prod.fst=
      first++behind.map Prod.fst := by
    rw [List.map_append,List.map_map]
    exact congrArg (·++_) (List.map_id first)
  have hempty : ∀ line ∈ splitLines Prod.fst (first.map (fun c => (c,kind))++behind),
      keep line=[] := by
    intro line hl
    rw [keep,List.filter_eq_nil_iff.mpr,List.map_nil]
    intro m hm
    obtain ⟨hmem,hnot⟩ := mem_splitLines hl hm
    rcases List.mem_append.mp hmem with hc | hc
    · obtain ⟨c,_,rfl⟩ := List.mem_map.mp hc
      rw [hk]
      exact Bool.false_ne_true
    · rw [hb m hc] at hnot
      cases hnot
  rw [keptLines,List.map_congr_left hempty,List.map_const',List.map_const',length_splitLines,
    hchars]

/-- A line comment, of which both passes leave nothing, ends its line or the
text. -/
theorem line_comment {first rest : List Char}
    (hcut : cutLines (rest++text.take 1)=(splitLines id (first++text.take 1)).map fun _ => [])
    (hend : ms=[] ∧ text=[] ∨ ms.head?.map Prod.fst=text.head? ∧
      ∃ c ∈ text.head?.map id, isBreak c=true) (h : keptLines ms=cutLines text) :
    keptLines (first.map (fun c => (c,.lineComment))++ms)=cutLines (rest++text) := by
  rcases hend with ⟨rfl,rfl⟩ | ⟨hsame,hb⟩
  · have hk := @keptLines_comment .lineComment rfl first [] (fun _ hm =>
      absurd hm List.not_mem_nil)
    exact hk.trans hcut.symm
  · have hms : ∃ c ∈ ms.head?.map Prod.fst, isBreak c=true := by
      rw [hsame]
      obtain ⟨c,hc,hbreak⟩ := hb
      exact ⟨c,by rwa [Option.map_id_apply] at hc,hbreak⟩
    have hbehind : ∀ m ∈ ms.take 1, isBreak m.1=true := by
      intro m hm
      cases ms with
      | nil => exact absurd hm List.not_mem_nil
      | cons x ms =>
        obtain ⟨c,hc,hbreak⟩ := hms
        rw [List.mem_singleton.mp hm,Option.some.inj hc]
        exact hbreak
    have htake : (ms.take 1).map Prod.fst=text.take 1 := by
      cases ms with
      | nil =>
        cases text with
        | nil => rfl
        | cons c text => cases hsame
      | cons x ms =>
        cases text with
        | nil => cases hsame
        | cons c text => exact congrArg (fun d => [d]) (Option.some.inj hsame)
    have hk := keptLines_comment (rfl : outsideComment .lineComment=false) first hbehind
    rw [htake,←hcut] at hk
    have htail : (splitLines Prod.fst ms).tail.map keep=(splitLines id text).tail.map cutLine := by
      rw [List.map_tail,List.map_tail]
      exact congrArg List.tail h
    rw [keptLines,splitLines_split hms,List.map_append,htail,cutLines,splitLines_split hb,
      List.map_append]
    exact congrArg (·++_) hk

/-- Line feeds end empty lines. -/
theorem cutLines_feeds (n : ℕ) (text : List Char) :
    cutLines (List.replicate n '\n'++text)=List.replicate n []++cutLines text := by
  induction n with
  | zero => rfl
  | succ n ih =>
    have hr : ¬(id '\n' = '\r' ∧ (List.replicate n '\n'++text).head?.map id=some '\n') := by
      intro h
      exact absurd h.1 (by decide)
    have hb : isBreak (id '\n')=true := by decide
    rw [List.replicate_succ,List.cons_append,cutLines,splitLines,if_neg hr,if_pos hb,
      List.map_cons,List.replicate_succ,List.cons_append,←ih]
    rfl

/-- A character of a comment leaves the first line as it is. -/
theorem comment_first (c : Char) {lines : List (List (Char×Kind))} (hne : lines.map keep≠[]) :
    (onFirst (c,.blockComment) lines).map keep=lines.map keep := by
  cases lines with
  | nil => exact absurd rfl hne
  | cons line lines =>
    rw [onFirst,List.map_cons,List.map_cons,keep_cons_comment rfl]

/-- A block comment with something behind it leaves an empty line for each
of its breaks. -/
theorem block_lines (body : List Char) : body.getLast?.any isBreak=false → keptLines ms≠[] →
    keptLines (body.map (fun c => (c,.blockComment))++ms)=
      List.replicate (breaks body) []++keptLines ms := by
  induction body with
  | nil =>
    intro _ _
    rfl
  | cons c body ih =>
    intro hb hne
    have hhead : body≠[] → (body.map (fun c => (c,Kind.blockComment))++ms).head?.map Prod.fst=
        body.head? := by
      intro hn
      cases body with
      | nil => exact absurd rfl hn
      | cons d body => rfl
    have hlater : body≠[] → keptLines (body.map (fun c => (c,.blockComment))++ms)=
        List.replicate (breaks body) []++keptLines ms := by
      intro hn
      refine ih ?_ hne
      cases body with
      | nil => exact absurd rfl hn
      | cons d body => exact hb
    have hne' : keptLines (body.map (fun c => (c,.blockComment))++ms)≠[] := by
      by_cases hn : body=[]
      · rw [hn]
        exact hne
      · rw [hlater hn]
        exact List.append_ne_nil_of_right_ne_nil _ hne
    rw [List.map_cons,List.cons_append,keptLines,splitLines,breaks]
    by_cases hn : body=[]
    · have hc : isBreak c=false := by
        rw [hn] at hb
        exact hb
      have hcr : c≠ '\r' := by
        intro h
        rw [h] at hc
        exact absurd hc (by decide)
      have hb' : ¬isBreak c=true := by
        rw [hc]
        exact Bool.false_ne_true
      rw [if_neg fun h => hcr h.1,if_neg hb',if_neg fun h => hcr h.1,if_neg hb',
        comment_first c hne',hn]
      rfl
    · rw [hhead hn]
      by_cases hr : c = '\r' ∧ body.head?=some '\n'
      · rw [if_pos hr,if_pos hr]
        exact hlater hn
      · rw [if_neg hr,if_neg hr]
        by_cases hc : isBreak c=true
        · rw [if_pos hc,if_pos hc,List.map_cons,List.replicate_succ,List.cons_append]
          exact congrArg (List.cons []) (hlater hn)
        · rw [if_neg hc,if_neg hc,comment_first c hne']
          exact hlater hn

end Agreement

section Tokens

theorem marks_cons (t : Token) (ts : List Token) :
    marks (t::ts)=t.text.map (fun c => (c,t.kind))++marks ts := by
  rw [marks,List.flatMap_cons]
  rfl

theorem marks_head (ts : List Token) : (marks ts).head?.map Prod.fst=(spell ts).head? := by
  induction ts with
  | nil => rfl
  | cons t ts ih =>
    rw [marks_cons]
    cases ht : t.text with
    | nil =>
      have hs : spell (t::ts)=spell ts := by
        rw [spell,List.flatMap_cons,ht]
        rfl
      rw [hs]
      exact ih
    | cons c text =>
      rw [spell,List.flatMap_cons,ht]
      rfl

/-- Where no line breaks are counted no character breaks. -/
theorem breaks_zero {text : List Char} (h : breaks text=0) : ∀ c ∈ text, isBreak c=false := by
  induction text with
  | nil =>
    intro c hc
    exact absurd hc List.not_mem_nil
  | cons d text ih =>
    rw [breaks] at h
    split_ifs at h with hr hd
    · have hn : '\n' ∈ text := List.mem_of_mem_head? hr.2
      exact absurd (ih h '\n' hn) (by decide)
    · intro c hc
      rcases List.mem_cons.mp hc with he | hm
      · rw [he]
        exact Bool.not_eq_true _ ▸ hd
      · exact ih h c hm

theorem bare_token {ts : List Token} (hb : bare ts=true) {t : Token} (ht : t ∈ ts) :
    t.kind=.blockComment ∧ breaks t.text=0 := by
  have h := List.all_eq_true.mp hb t ht
  rw [Bool.and_eq_true] at h
  exact ⟨of_decide_eq_true h.1,of_decide_eq_true h.2⟩

/-- Only block comments: one line with nothing to keep, of which the first
pass leaves nothing. -/
theorem bare_lines {ts : List Token} (hl : Lexed ts) (hb : bare ts=true) (hne : ts≠[]) :
    keptLines (marks ts)=[[]] ∧ ts.flatMap leftover=[] := by
  have hmark : ∀ m ∈ marks ts, isBreak m.1=false ∧ m.2=.blockComment := by
    intro m hm
    obtain ⟨t,ht,hm⟩ := List.mem_flatMap.mp hm
    obtain ⟨c,hc,rfl⟩ := List.mem_map.mp hm
    exact ⟨breaks_zero (bare_token hb ht).2 c hc,(bare_token hb ht).1⟩
  have hkeep : keep (marks ts)=[] := by
    rw [keep,List.filter_eq_nil_iff.mpr,List.map_nil]
    intro m hm
    rw [(hmark m hm).2]
    exact Bool.false_ne_true
  have hmarks : marks ts≠[] := by
    cases ts with
    | nil => exact absurd rfl hne
    | cons t ts =>
      rw [marks_cons]
      refine List.append_ne_nil_of_left_ne_nil ?_ _
      intro he
      exact hl.1 (List.map_eq_nil_iff.mp he)
  constructor
  · have hs : splitLines Prod.fst (marks ts++[])=
        (marks ts).foldr onFirst (splitLines Prod.fst []) :=
      splitLines_append (fun m hm => (hmark m hm).1) []
    rw [List.append_nil,splitLines,foldr_onFirst_nil hmarks] at hs
    rw [keptLines,hs,List.map_singleton,hkeep]
  · rw [List.flatMap_eq_nil_iff]
    intro t ht
    obtain ⟨hk,hz⟩ := bare_token hb ht
    have hc : t.text.count '\n'=0 := by
      rw [List.count_eq_zero]
      intro hm
      exact absurd (breaks_zero hz '\n' hm) (by decide)
    rw [leftover,hk,hc]
    rfl

/-- What is left of a text begins with a slash only if the text does. -/
theorem slash_of_withoutBlocks {text : List Char}
    (h : (withoutBlocks 0 text).head?=some '/') : text.head?=some '/' := by
  cases text with
  | nil => cases h
  | cons c text =>
    rw [withoutBlocks] at h
    by_cases hc : c = '/' ∧ text.head?=some '*'
    · rw [hc.1]
      rfl
    · rw [if_neg hc] at h
      exact h

/-- What is no slash stays in front. -/
theorem withoutBlocks_head {text : List Char} {c : Char} (h : text.head?=some c) (hc : c ≠ '/') :
    (withoutBlocks 0 text).head?=some c := by
  cases text with
  | nil => cases h
  | cons d text =>
    obtain rfl : d=c := Option.some.inj h
    rw [withoutBlocks,if_neg fun hd => hc hd.1]
    rfl

/-- Behind a slash of a text in which no comment begins stands no slash. -/
theorem not_slash_of_opens {after before behind : List Char}
    (h : opens after (before++ '/'::behind)=false) : (behind++after).head?≠some '/' := by
  induction before with
  | nil =>
    intro he
    rw [List.nil_append,opens,decide_eq_true he] at h
    cases h
  | cons c before ih =>
    rw [List.cons_append,opens,Bool.or_eq_false_iff] at h
    exact ih h.2

/-- The two passes and the tokens agree at a token outside comments. -/
theorem kept_agree {t : Token} {ts : List Token} (hl : Lexed (t::ts)) (hf : fair ts=true)
    (hk : outsideComment t.kind=true) (ho : opens (spell ts) t.text=false)
    (hcr : keepsReturn (spell ts) t.text=true)
    (h : keptLines (marks ts)=cutLines (ts.flatMap leftover) ∨
      keptLines (marks ts)=[[]] ∧ ts.flatMap leftover=[] ∧
        t.text.getLast?.any isBreak=false) :
    keptLines (marks (t::ts))=cutLines (t.text++ts.flatMap leftover) := by
  have hw := withoutBlocks_spell hl.2.2.2 hf
  rw [marks_cons]
  refine kept_text hk t.text hl.1 ?_ ?_ h
  · intro hr
    rw [marks_head,←hw]
    exact ⟨fun hn => withoutBlocks_head hn (by decide),of_decide_eq_true hcr hr⟩
  · intro before behind he
    rw [he] at ho
    have hn := not_slash_of_opens ho
    cases behind with
    | nil => exact fun hs => hn (slash_of_withoutBlocks (hw.symm ▸ hs))
    | cons c behind => exact hn

/-- The two passes and the tokens agree at a line comment. -/
theorem line_agree {t : Token} {ts : List Token} (hl : Lexed (t::ts))
    (hf : fairToken (spell ts) t=true ∧ fair ts=true) (hk : t.kind=.lineComment)
    (h : keptLines (marks ts)=cutLines (ts.flatMap leftover)) :
    keptLines (t.text.map (fun c => (c,.lineComment))++marks ts)=
      cutLines (withoutBlocks 0 t.text++ts.flatMap leftover) := by
  have hf' := hf.1
  rw [fairToken,hk] at hf'
  simp only [Bool.and_eq_true,decide_eq_true_eq] at hf'
  have hw := withoutBlocks_spell hl.2.2.2 hf.2
  have hcut := hf'.2
  cases hts : ts with
  | nil =>
    rw [hts] at hcut
    exact line_comment hcut (Or.inl ⟨rfl,rfl⟩) rfl
  | cons t' ts' =>
    rw [←hts]
    have hne : spell ts≠[] := by
      rw [hts]
      have hn := hl.2.2.2
      rw [hts] at hn
      exact List.append_ne_nil_of_left_ne_nil hn.1 _
    cases hsp : spell ts with
    | nil => exact absurd hsp hne
    | cons c text =>
      have hc : isBreak c=true ∧ c ≠ '/' := by
        rcases of_decide_eq_true (hl.2.2.1 hk c (by rw [hsp]; rfl)) with rfl | rfl
        · decide
        · decide
      have hhead : (spell ts).head?=some c := by
        rw [hsp]
        rfl
      have hkept := withoutBlocks_head hhead hc.2
      rw [hw] at hkept
      have htake : (spell ts).take 1=(ts.flatMap leftover).take 1 := by
        rw [List.take_one,List.take_one,hhead,hkept]
      rw [htake] at hcut
      refine line_comment hcut (Or.inr ⟨?_,c,?_,hc.1⟩) h
      · rw [marks_head,hhead,hkept]
      · rw [hkept]
        rfl

/-- Bare comments begin with a slash, which ends no line. -/
theorem slash_behind {ts : List Token} (hn : ts≠[]) (hf : fair ts=true)
    (hb : bare ts=true) : ¬∀ c ∈ (spell ts).head?, isNewline c=true := by
  cases ts with
  | nil => exact absurd rfl hn
  | cons t ts =>
    rw [fair,Bool.and_eq_true] at hf
    obtain ⟨body,ht,_,_⟩ := fair_block (bare_token hb List.mem_cons_self).1 hf.1
    intro h
    have hs : (spell (t::ts)).head?=some '/' := by
      rw [spell,List.flatMap_cons,ht]
      rfl
    exact absurd (h '/' hs) (by decide)

/-- The two passes and the tokens agree, unless nothing but block comments
is left. -/
theorem lines_agree {ts : List Token} (hl : Lexed ts) (hf : fair ts=true)
    (hs : standing ts=true) (hb : ts=[] ∨ bare ts=false) :
    keptLines (marks ts)=cutLines (ts.flatMap leftover) := by
  induction ts with
  | nil => rfl
  | cons t ts ih =>
    rw [fair,Bool.and_eq_true] at hf
    rw [standing,Bool.and_eq_true,Bool.or_eq_true] at hs
    have ih' := ih hl.2.2.2 hf.2 hs.2
    -- what is behind the token: nothing, something else, or bare comments
    have hbehind : keptLines (marks ts)=cutLines (ts.flatMap leftover) ∨
        (ts≠[] ∧ bare ts=true) := by
      by_cases hn : ts=[]
      · exact Or.inl (ih' (Or.inl hn))
      · cases hbs : bare ts with
        | false => exact Or.inl (ih' (Or.inr hbs))
        | true => exact Or.inr ⟨hn,rfl⟩
    have hkept : outsideComment t.kind=true → t.kind≠.blockComment →
        keptLines (marks ts)=cutLines (ts.flatMap leftover) ∨
          keptLines (marks ts)=[[]] ∧ ts.flatMap leftover=[] ∧
            t.text.getLast?.any isBreak=false := by
      intro _ hk
      rcases hbehind with h | ⟨hn,hbs⟩
      · exact Or.inl h
      · obtain ⟨hm,ht⟩ := bare_lines hl.2.2.2 hbs hn
        refine Or.inr ⟨hm,ht,?_⟩
        have hst := hs.1
        rw [hbs,holdsLine,if_neg hk,decide_eq_false hn,Bool.false_or] at hst
        simpa only [Bool.not_true,Bool.false_eq_true,false_or,Bool.not_eq_true'] using hst
    rw [List.flatMap_cons]
    cases hk : t.kind with
    | code =>
      have hf' := hf.1
      rw [fairToken,hk] at hf'
      have hok : outsideComment t.kind=true := by rw [hk]; rfl
      have hlo : leftover t=t.text := by rw [leftover,hk]
      rw [hlo]
      exact kept_agree hl hf.2 hok (opens_of_slashed (hl.2.1 hk)) hf'
        (hkept hok (by rw [hk]; exact Kind.noConfusion))
    | literal =>
      have hf' := hf.1
      rw [fairToken,hk] at hf'
      simp only [Bool.and_eq_true,Bool.not_eq_true'] at hf'
      have hok : outsideComment t.kind=true := by rw [hk]; rfl
      have hlo : leftover t=t.text := by rw [leftover,hk]
      rw [hlo]
      exact kept_agree hl hf.2 hok hf'.2 hf'.1
        (hkept hok (by rw [hk]; exact Kind.noConfusion))
    | lineComment =>
      have hlo : leftover t=withoutBlocks 0 t.text := by rw [leftover,hk]
      rw [hlo,marks_cons,hk]
      rcases hbehind with h | ⟨hn,hbs⟩
      · exact line_agree hl hf hk h
      · exact absurd (hl.2.2.1 hk) (slash_behind hn hf.2 hbs)
    | blockComment =>
      obtain ⟨body,ht,hc,hbr⟩ := fair_block hk hf.1
      have hlo : leftover t=List.replicate (t.text.count '\n') '\n' := by rw [leftover,hk]
      have hlast : t.text.getLast?.any isBreak=false := by
        rw [ht]
        cases body with
        | nil => cases hc
        | cons c body =>
          have hl' := closeLength_last hc
          have hg : ('/':: '*'::c::body).getLast?=(c::body).getLast? := rfl
          rw [hg,hl']
          rfl
      have hnot : bare ts≠true := by
        intro hbs
        have hst := hs.1
        rw [hbs,holdsLine,if_pos hk] at hst
        have hz : decide (breaks t.text=0)=true := by
          simpa only [Bool.not_true,Bool.false_eq_true,false_or] using hst
        have hbt : bare (t::ts)=true := by
          rw [bare,List.all_cons,decide_eq_true hk,hz]
          exact hbs
        rcases hb with hb | hb
        · exact absurd hb (List.cons_ne_nil _ _)
        · rw [hbt] at hb
          cases hb
      rcases hbehind with h | ⟨hn,hbs⟩
      · have hm : keptLines (marks ts)≠[] := by
          cases ts with
          | nil => exact absurd rfl hnot
          | cons t' ts' =>
            rw [marks_cons]
            intro he
            refine splitLines_ne ?_ (List.map_eq_nil_iff.mp he)
            refine List.append_ne_nil_of_left_ne_nil ?_ _
            intro ht'
            exact hl.2.2.2.1 (List.map_eq_nil_iff.mp ht')
        rw [hlo,marks_cons,hk,cutLines_feeds,block_lines t.text hlast hm,hbr,h]
      · exact absurd hbs hnot

end Tokens

/-- On a plain text the two passes return the lines without their
comments. -/
theorem stripComments_plain (text : List Char) (h : plain text=true) :
    stripComments text=codeLines text := by
  rw [plain,Bool.and_eq_true,Bool.and_eq_true,Bool.or_eq_true] at h
  obtain ⟨⟨hf,hs⟩,hb⟩ := h
  have hl := lexed_tokens text
  have hw := withoutBlocks_spell hl hf
  rw [spell_tokens] at hw
  have ha : keptLines (marks (tokens text))=cutLines ((tokens text).flatMap leftover) := by
    apply lines_agree hl hf hs
    rcases hb with hb | hb
    · rw [of_decide_eq_true hb]
      exact Or.inl rfl
    · exact Or.inr ((Bool.not_eq_true' _).mp hb)
  rw [stripComments,hw]
  exact ha.symm

/-- Ordinary code with every kind of comment and literal, which the two
passes strip as they should. -/
theorem stripComments_sample :
    stripComments "int n = 1'000; // it's /* one */\nf(\"a\\\"b\", '*'); /* x\n */ g(); // h\n".toList=
      codeLines "int n = 1'000; // it's /* one */\nf(\"a\\\"b\", '*'); /* x\n */ g(); // h\n".toList :=
  stripComments_plain _ (by decide +kernel)

/-- A block opener in a line comment makes the first pass swallow the code
of the next line. -/
theorem stripComments_swallows :
    stripComments "// a/*\nx/**/\n".toList≠codeLines "// a/*\nx/**/\n".toList := by
  decide +kernel

end CudaForge.CommentStripping
