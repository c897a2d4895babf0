import Mathlib.Data.List.TakeWhile
import Mathlib.Tactic

/-!
# Where the comments of a C++ text are

The lexical rules that decide where comments begin and end: a backslash
before a line end splices two lines, and the longest token is read from left
to right, be it an identifier, a number with its digit separators, a
character or string literal, a raw string, a comment or a single character.
The tokens are kept as they are spelled, spliced line ends included, so that
their texts make up the whole text again; the splices before a token stand by
themselves, outside the comment that may begin there.
-/

namespace CudaForge.CppLexing

/-- How a physical line ends. -/
inductive Ending where
  | lf
  | cr
  | crlf
  deriving DecidableEq,Repr

/-- The characters of a line end. -/
def Ending.text : Ending → List Char
  | .lf => ['\n']
  | .cr => ['\r']
  | .crlf => ['\r','\n']

/-- The line end a text begins with. -/
def ending (text : List Char) : Option Ending :=
  if text.take 2=['\r','\n'] then some .crlf
  else if text.head?=some '\n' then some .lf
  else if text.head?=some '\r' then some .cr
  else none

/-- A character with the spliced line ends before it. -/
structure Logical where
  /-- Line ends that a backslash splices away. -/
  splices : List Ending
  /-- The character itself. -/
  char : Char
  deriving DecidableEq,Repr

/-- Spliced line ends as they are spelled. -/
def spellSplices (splices : List Ending) : List Char :=
  splices.flatMap fun e => '\\'::e.text

/-- Logical characters as they are spelled. -/
def spellUnits (units : List Logical) : List Char :=
  units.flatMap fun u => spellSplices u.splices++[u.char]

/-- The logical characters of a text, and the splices at its end. The first
argument counts characters still to skip, the second collects splices. -/
def units : ℕ → List Ending → List Char → List Logical×List Ending
  | _,splices,[] => ([],splices)
  | skip+1,splices,_::text => units skip splices text
  | 0,splices,c::text =>
    match if c = '\\' then ending text else none with
    | some e => units e.text.length (splices++[e]) text
    | none => (⟨splices,c⟩::(units 0 [] text).1,(units 0 [] text).2)

/-- What a token is. -/
inductive Kind where
  | code
  | literal
  | lineComment
  | blockComment
  deriving DecidableEq,Repr

/-- A token as it is spelled. -/
structure Token where
  /-- What it is. -/
  kind : Kind
  /-- Its characters. -/
  text : List Char
  deriving DecidableEq,Repr

/-- The characters that end a line. -/
def isNewline (c : Char) : Bool := decide (c = '\n' ∨ c = '\r')

/-- The characters an identifier is made of. -/
def isIdentifier (c : Char) : Bool := c.isAlphanum || decide (c = '_') || decide (128≤c.toNat)

/-- The next character, past its splices. -/
def peek (us : List Logical) : Option Char := us.head?.map Logical.char

/-- How many characters a literal has behind its opening quote: up to its
closing quote, or up to the end of the line. -/
def quoted (quote : Char) : Bool → List Logical → ℕ
  | _,[] => 0
  | escaped,u::us =>
    if isNewline u.char then 0
    else if escaped then quoted quote false us+1
    else if u.char=quote then 1
    else quoted quote (decide (u.char = '\\')) us+1

/-- How many characters a block comment has behind its opener. -/
def blockLength : List Logical → ℕ
  | [] => 0
  | u::us => if u.char = '*' ∧ peek us=some '/' then 2 else blockLength us+1

/-- How many more characters a number has: letters, digits, points, digit
separators, and the sign of an exponent. -/
def numberLength : Char → List Logical → ℕ
  | _,[] => 0
  | previous,u::us =>
    if isIdentifier u.char ∨ u.char = '.' then numberLength u.char us+1
    else if u.char = '\'' ∧ (peek us).any isIdentifier then numberLength u.char us+1
    else if (u.char = '+' ∨ u.char = '-') ∧ previous ∈ ['e','E','p','P'] then
      numberLength u.char us+1
    else 0

/-- The words that make a following string raw. -/
def rawPrefixes : List (List Char) :=
  [['R'],['L','R'],['u','R'],['U','R'],['u','8','R']]

/-- How many characters lead up to a raw string's end: a parenthesis, the
delimiter and a quote, none of them spliced. -/
def rawClosing (delimiter : List Char) : List Logical → ℕ
  | [] => 0
  | u::us =>
    if u.char = ')' ∧ us.take (delimiter.length+1)=(delimiter++['"']).map (Logical.mk []) then
      delimiter.length+2
    else rawClosing delimiter us+1

/-- How many characters a raw string has behind its opening quote. -/
def rawLength (us : List Logical) : ℕ :=
  let delimiter := us.takeWhile fun u => u.char ≠ '('
  delimiter.length+1+rawClosing (delimiter.map Logical.char) (us.drop (delimiter.length+1))

/-- The token that begins with a character: its kind, and how many more
characters belong to it. -/
def extent (c : Char) (us : List Logical) : Kind×ℕ :=
  if c = '/' ∧ peek us=some '/' then
    (.lineComment,(us.takeWhile fun u => !isNewline u.char).length)
  else if c = '/' ∧ peek us=some '*' then (.blockComment,blockLength us.tail+1)
  else if c = '"' ∨ c = '\'' then (.literal,quoted c false us)
  else if c.isDigit ∨ c = '.' ∧ (peek us).any Char.isDigit then (.code,numberLength c us)
  else if isIdentifier c then
    let word := us.takeWhile fun u => isIdentifier u.char
    if c::word.map Logical.char ∈ rawPrefixes ∧ peek (us.drop word.length)=some '"' then
      (.literal,word.length+1+rawLength (us.drop (word.length+1)))
    else (.code,word.length)
  else (.code,0)

/-- The splices before a token, or at the end of the text. -/
def spliced (splices : List Ending) : List Token :=
  if splices=[] then [] else [⟨.code,spellSplices splices⟩]

/-- The tokens of logical characters and of splices behind them. A line
comment takes the splices before its line end with it. The first argument
bounds the number of logical characters. -/
def lexUnits : ℕ → List Ending → List Logical → List Token
  | _,trailing,[] => spliced trailing
  | 0,_,_::_ => []
  | fuel+1,trailing,u::us =>
    let e := extent u.char us
    let text := u.char::spellUnits (us.take e.2)
    spliced u.splices++
      if e.1=.lineComment then
        match us.drop e.2 with
        | [] => [⟨.lineComment,text++spellSplices trailing⟩]
        | v::vs => ⟨.lineComment,text++spellSplices v.splices⟩::
            lexUnits fuel trailing (⟨[],v.char⟩::vs)
      else ⟨e.1,text⟩::lexUnits fuel trailing (us.drop e.2)

/-- The tokens of a text. -/
def tokens (text : List Char) : List Token :=
  lexUnits text.length (units 0 [] text).2 (units 0 [] text).1

/-- Tokens as they are spelled. -/
def spell (ts : List Token) : List Char := ts.flatMap Token.text

theorem spellSplices_append (first second : List Ending) :
    spellSplices (first++second)=spellSplices first++spellSplices second := by
  rw [spellSplices,List.flatMap_append]
  rfl

theorem spellUnits_append (first second : List Logical) :
    spellUnits (first++second)=spellUnits first++spellUnits second := by
  rw [spellUnits,List.flatMap_append]
  rfl

theorem spellUnits_cons (u : Logical) (us : List Logical) :
    spellUnits (u::us)=spellSplices u.splices++[u.char]++spellUnits us := by
  rw [spellUnits,List.flatMap_cons]
  rfl

/-- A text begins with the line end found there. -/
theorem ending_take {text : List Char} {e : Ending} (h : ending text=some e) :
    text.take e.text.length=e.text := by
  rw [ending] at h
  split_ifs at h with h2 hn hr
  · rw [←Option.some.inj h]
    exact h2
  · rw [←Option.some.inj h]
    cases text with
    | nil => exact absurd hn (by simp only [List.head?_nil,reduceCtorEq,not_false_eq_true])
    | cons c text =>
      rw [Option.some.inj hn]
      rfl
  · rw [←Option.some.inj h]
    cases text with
    | nil => exact absurd hr (by simp only [List.head?_nil,reduceCtorEq,not_false_eq_true])
    | cons c text =>
      rw [Option.some.inj hr]
      rfl

/-- The logical characters and the splices at the end spell the text. -/
theorem spell_units (text : List Char) : ∀ (skip : ℕ) (splices : List Ending),
    spellUnits (units skip splices text).1++spellSplices (units skip splices text).2=
      spellSplices splices++text.drop skip := by
  induction text with
  | nil =>
    intro skip splices
    rw [units,List.drop_nil,List.append_nil]
    rfl
  | cons c text ih =>
    intro skip splices
    cases skip with
    | succ skip =>
      rw [units,ih]
      rfl
    | zero =>
      rw [units]
      cases he : (if c = '\\' then ending text else none) with
      | none =>
        simp only
        rw [spellUnits_cons,List.append_assoc,List.append_assoc,ih 0 []]
        rfl
      | some e =>
        simp only
        split_ifs at he with hc
        rw [ih,spellSplices_append,List.append_assoc,hc,List.drop_zero]
        have ht := List.take_append_drop e.text.length text
        rw [ending_take he] at ht
        have hs : spellSplices [e] = '\\'::e.text := List.append_nil _
        conv_rhs => rw [←ht]
        rw [hs,List.cons_append]

/-- There are no more logical characters than characters. -/
theorem units_length_le (text : List Char) : ∀ (skip : ℕ) (splices : List Ending),
    (units skip splices text).1.length≤text.length := by
  induction text with
  | nil =>
    intro skip splices
    rw [units]
    exact Nat.le_refl 0
  | cons c text ih =>
    intro skip splices
    cases skip with
    | succ skip =>
      rw [units]
      exact (ih skip splices).trans (Nat.le_succ _)
    | zero =>
      rw [units]
      cases he : (if c = '\\' then ending text else none) with
      | none => exact Nat.succ_le_succ (ih 0 [])
      | some e => exact (ih _ _).trans (Nat.le_succ _)

/-- Some slash of a text is directly followed by a slash or a star. -/
def slashed (after : List Char) : List Char → Bool
  | [] => false
  | c::text =>
    (decide (c = '/') && (decide ((text++after).head?=some '/') ||
      decide ((text++after).head?=some '*'))) || slashed after text

/-- Without a slash nothing begins. -/
theorem slashed_of_notMem (after : List Char) {text : List Char} (h : '/' ∉ text) :
    slashed after text=false := by
  induction text with
  | nil => rfl
  | cons c text ih =>
    rw [List.mem_cons,not_or] at h
    have hc : decide (c = '/')=false := decide_eq_false fun he => h.1 he.symm
    rw [slashed,hc,ih h.2]
    rfl

theorem slash_notMem_splices (splices : List Ending) : '/' ∉ spellSplices splices := by
  intro hm
  obtain ⟨e,_,he⟩ := List.mem_flatMap.mp hm
  cases e with
  | lf => exact absurd he (by decide)
  | cr => exact absurd he (by decide)
  | crlf => exact absurd he (by decide)

theorem slash_notMem_units {us : List Logical} (h : ∀ u ∈ us, u.char ≠ '/') :
    '/' ∉ spellUnits us := by
  intro hm
  obtain ⟨u,hu,hc⟩ := List.mem_flatMap.mp hm
  rcases List.mem_append.mp hc with hc | hc
  · exact slash_notMem_splices u.splices hc
  · exact h u hu (List.mem_singleton.mp hc).symm

/-- The first character spelled is the next one, or the backslash of a
splice. -/
theorem head_spell (us : List Logical) (trailing : List Ending) :
    (spellUnits us++spellSplices trailing).head?=peek us ∨
      (spellUnits us++spellSplices trailing).head?=some '\\' := by
  cases us with
  | nil =>
    cases trailing with
    | nil => exact Or.inl rfl
    | cons e trailing => exact Or.inr rfl
  | cons u us =>
    rw [spellUnits_cons]
    cases hs : u.splices with
    | nil => exact Or.inl rfl
    | cons e splices => exact Or.inr rfl

/-- A number has no slash. -/
theorem slash_notMem_number (us : List Logical) :
    ∀ previous, ∀ u ∈ us.take (numberLength previous us), u.char ≠ '/' := by
  induction us with
  | nil =>
    intro previous u hu
    exact absurd hu (by rw [List.take_nil]; exact List.not_mem_nil)
  | cons v us ih =>
    intro previous u hu
    have hstep : v.char ≠ '/' → u ∈ v::us.take (numberLength v.char us) → u.char ≠ '/' := by
      intro hv hm
      rcases List.mem_cons.mp hm with he | hm
      · rw [he]
        exact hv
      · exact ih v.char u hm
    rw [numberLength] at hu
    split_ifs at hu with hi hq hs
    · refine hstep ?_ hu
      intro hv
      rw [hv] at hi
      exact absurd hi (by decide)
    · refine hstep ?_ hu
      intro hv
      rw [hv] at hq
      exact absurd hq.1 (by decide)
    · refine hstep ?_ hu
      intro hv
      rw [hv] at hs
      exact absurd hs.1 (by decide)
    · exact absurd hu List.not_mem_nil

/-- A token of code that begins with a slash is that slash, and no comment
begins there; any other has no slash. -/
theorem extent_code {c : Char} {us : List Logical} (h : (extent c us).1=.code) :
    (c = '/' → (extent c us).2=0 ∧ peek us≠some '/' ∧ peek us≠some '*') ∧
      (c ≠ '/' → ∀ u ∈ us.take (extent c us).2, u.char ≠ '/') := by
  unfold extent at h ⊢
  by_cases hl : c = '/' ∧ peek us=some '/'
  · rw [if_pos hl] at h
    cases h
  rw [if_neg hl] at h ⊢
  by_cases hb : c = '/' ∧ peek us=some '*'
  · rw [if_pos hb] at h
    cases h
  rw [if_neg hb] at h ⊢
  by_cases hq : c = '"' ∨ c = '\''
  · rw [if_pos hq] at h
    cases h
  rw [if_neg hq] at h ⊢
  by_cases hd : c.isDigit ∨ c = '.' ∧ (peek us).any Char.isDigit
  · rw [if_pos hd]
    refine ⟨?_,?_⟩
    · intro hc
      rw [hc] at hd
      rcases hd with hd | hd
      · exact absurd hd (by decide)
      · exact absurd hd.1 (by decide)
    · intro _
      exact slash_notMem_number us c
  rw [if_neg hd] at h ⊢
  by_cases hi : isIdentifier c=true
  · rw [if_pos hi] at h ⊢
    have hword : ∀ u ∈ us.take (us.takeWhile fun u => isIdentifier u.char).length,
        u.char ≠ '/' := by
      intro u hu hs
      rw [←List.prefix_iff_eq_take.mp (List.takeWhile_prefix _)] at hu
      have hid := List.mem_takeWhile_imp hu
      rw [hs] at hid
      exact absurd hid (by decide)
    refine ⟨?_,?_⟩
    · intro hc
      rw [hc] at hi
      exact absurd hi (by decide)
    · intro _
      simp only at h ⊢
      split_ifs at h ⊢ with hr
      exact hword
  · rw [if_neg hi]
    refine ⟨?_,?_⟩
    · intro hc
      exact ⟨rfl,fun hp => hl ⟨hc,hp⟩,fun hp => hb ⟨hc,hp⟩⟩
    · intro _ u hu
      exact absurd hu (by rw [List.take_zero]; exact List.not_mem_nil)

/-- A line comment goes up to the end of its line. -/
theorem extent_line {c : Char} {us : List Logical} (h : (extent c us).1=.lineComment) :
    (extent c us).2=(us.takeWhile fun u => !isNewline u.char).length := by
  unfold extent at h ⊢
  by_cases hl : c = '/' ∧ peek us=some '/'
  · rw [if_pos hl]
  · rw [if_neg hl] at h
    simp only at h
    split_ifs at h

/-- Behind a line comment its line ends. -/
theorem drop_line {us vs : List Logical} {v : Logical}
    (h : us.drop (us.takeWhile fun u => !isNewline u.char).length=v::vs) :
    isNewline v.char=true := by
  have hd := @List.drop_left Logical (us.takeWhile fun u => !isNewline u.char)
    (us.dropWhile fun u => !isNewline u.char)
  rw [List.takeWhile_append_dropWhile,h] at hd
  have hh := List.head?_dropWhile_not (fun u : Logical => !isNewline u.char) us
  rw [←hd] at hh
  simpa only [List.head?_cons,Bool.not_eq_eq_eq_not,Bool.not_false,Bool.not_true] using hh

/-- What is known of tokens one behind the other: none is empty, no comment
begins in one of code, and a line comment is followed by the end of its
line. -/
def Lexed : List Token → Prop
  | [] => True
  | t::ts => t.text≠[] ∧ (t.kind=.code → slashed (spell ts) t.text=false) ∧
      (t.kind=.lineComment → ∀ c ∈ (spell ts).head?, isNewline c=true) ∧ Lexed ts

/-- No comment begins in a token of code. -/
theorem slashed_code {c : Char} {us : List Logical} (trailing : List Ending)
    (h : (extent c us).1=.code) :
    slashed (spellUnits (us.drop (extent c us).2)++spellSplices trailing)
      (c::spellUnits (us.take (extent c us).2))=false := by
  obtain ⟨hslash,hother⟩ := extent_code h
  by_cases hc : c = '/'
  · obtain ⟨hz,hs,hb⟩ := hslash hc
    have hn : spellUnits (us.take 0)=[] := rfl
    rw [hz,hn,List.drop_zero,slashed,slashed,List.nil_append,Bool.or_false]
    rcases head_spell us trailing with he | he
    · rw [he,decide_eq_false hs,decide_eq_false hb,Bool.or_false,Bool.and_false]
    · rw [he]
      exact Bool.and_false _
  · apply slashed_of_notMem
    intro hm
    rcases List.mem_cons.mp hm with he | hm
    · exact hc he.symm
    · exact slash_notMem_units (hother hc) hm

/-- Splices by themselves, before tokens that are as they should be. -/
theorem lexed_spliced (splices : List Ending) {ts : List Token} (h : Lexed ts) :
    Lexed (spliced splices++ts) ∧ spell (spliced splices++ts)=spellSplices splices++spell ts := by
  rw [spliced]
  by_cases hs : splices=[]
  · rw [if_pos hs,hs]
    exact ⟨h,rfl⟩
  · rw [if_neg hs]
    refine ⟨⟨?_,?_,?_,h⟩,rfl⟩
    · cases splices with
      | nil => exact absurd rfl hs
      | cons e splices => exact List.cons_ne_nil _ _
    · intro _
      exact slashed_of_notMem _ (slash_notMem_splices splices)
    · intro hc
      cases hc

/-- The tokens of logical characters are as they should be, and spell them. -/
theorem lexUnits_spec (trailing : List Ending) (fuel : ℕ) :
    ∀ us : List Logical, us.length≤fuel →
      Lexed (lexUnits fuel trailing us) ∧
        spell (lexUnits fuel trailing us)=spellUnits us++spellSplices trailing := by
  have hend : ∀ fuel, Lexed (lexUnits fuel trailing []) ∧
      spell (lexUnits fuel trailing [])=spellUnits []++spellSplices trailing := by
    intro fuel
    have hs := @lexed_spliced trailing [] trivial
    rw [List.append_nil] at hs
    rw [lexUnits]
    exact ⟨hs.1,hs.2.trans (List.append_nil _)⟩
  induction fuel with
  | zero =>
    intro us hl
    rw [List.length_eq_zero_iff.mp (Nat.le_zero.mp hl)]
    exact hend 0
  | succ fuel ih =>
    intro us hl
    cases us with
    | nil => exact hend (fuel+1)
    | cons u us =>
      have hsplit : spellUnits (us.take (extent u.char us).2)++
          spellUnits (us.drop (extent u.char us).2)=spellUnits us := by
        rw [←spellUnits_append,List.take_append_drop]
      have hlen : (us.drop (extent u.char us).2).length≤fuel := by
        rw [List.length_drop]
        rw [List.length_cons] at hl
        omega
      have hbehind : ∀ {ts : List Token}, Lexed ts →
          spell ts=u.char::(spellUnits us++spellSplices trailing) →
          Lexed (spliced u.splices++ts) ∧
            spell (spliced u.splices++ts)=spellUnits (u::us)++spellSplices trailing := by
        intro ts ht hs
        obtain ⟨hlexed,hspell⟩ := lexed_spliced u.splices ht
        refine ⟨hlexed,?_⟩
        rw [hspell,hs,spellUnits_cons,List.append_assoc,List.append_assoc]
        rfl
      rw [lexUnits]
      by_cases hk : (extent u.char us).1=.lineComment
      · simp only [if_pos hk]
        cases hd : us.drop (extent u.char us).2 with
        | nil =>
          rw [hd] at hsplit
          have hs : spellUnits (us.take (extent u.char us).2)=spellUnits us := by
            rw [←hsplit]
            exact (List.append_nil _).symm
          refine hbehind ⟨List.cons_ne_nil _ _,?_,?_,trivial⟩ ?_
          · intro hc
            cases hc
          · intro _ c hc
            cases hc
          · simp only [hs]
            exact List.append_nil _
        | cons v vs =>
          have hnl : isNewline v.char=true := by
            rw [extent_line hk] at hd
            exact drop_line hd
          rw [hd] at hlen hsplit
          obtain ⟨hi,hs⟩ := ih (⟨[],v.char⟩::vs) hlen
          refine hbehind ⟨List.cons_ne_nil _ _,?_,?_,hi⟩ ?_
          · intro hc
            cases hc
          · intro _ c hc
            rw [hs,spellUnits_cons] at hc
            rw [←Option.some.inj hc]
            exact hnl
          · have hv : spellUnits (v::vs)=spellSplices v.splices++spellUnits (⟨[],v.char⟩::vs) := by
              rw [spellUnits_cons,spellUnits_cons,List.append_assoc]
              rfl
            rw [←hsplit,hv,List.append_assoc,List.append_assoc,←hs]
            exact congrArg (List.cons u.char) (List.append_assoc _ _ _)
      · simp only [if_neg hk]
        obtain ⟨hi,hs⟩ := ih (us.drop (extent u.char us).2) hlen
        refine hbehind ⟨List.cons_ne_nil _ _,?_,?_,hi⟩ ?_
        · intro hc
          rw [hs]
          exact slashed_code trailing hc
        · intro hc
          exact absurd hc hk
        · rw [←hsplit,List.append_assoc,←hs]
          rfl

/-- The tokens of a text are as they should be. -/
theorem lexed_tokens (text : List Char) : Lexed (tokens text) :=
  (lexUnits_spec _ _ _ (units_length_le text 0 [])).1

/-- The tokens of a text spell it. -/
theorem spell_tokens (text : List Char) : spell (tokens text)=text := by
  rw [tokens,(lexUnits_spec _ _ _ (units_length_le text 0 [])).2,spell_units text 0 []]
  rfl

end CudaForge.CppLexing
