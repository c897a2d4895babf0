import Mathlib.Data.List.TakeWhile
import Mathlib.Tactic

/-!
# Strings of Python

`str.strip`, `str` of an integer and `int` of a string, over lists of characters.
Of the decimal digits of Unicode `int` takes those of ASCII here. An integer of more
than 4300 digits is neither written nor read.
-/

namespace CudaForge.PythonStrings

/-- `str.isspace` of one character. -/
def isSpace (c : Char) : Bool :=
  (decide (9 ≤ c.toNat) && decide (c.toNat ≤ 13)) ||
    (decide (28 ≤ c.toNat) && decide (c.toNat ≤ 32)) ||
    (decide (8192 ≤ c.toNat) && decide (c.toNat ≤ 8202)) ||
    [133,160,5760,8232,8233,8239,8287,12288].any (fun code => decide (code=c.toNat))

/-- `str.strip`. -/
def strip (text : List Char) : List Char :=
  ((text.dropWhile isSpace).reverse.dropWhile isSpace).reverse

/-- `not text.strip()`. -/
def isBlank (text : List Char) : Bool := (strip text).isEmpty

/-- The limit on the digits of an integer that is written or read. -/
def maxStrDigits : ℕ := 4300

/-- `str` of an integer, if it may be written. -/
def str (value : ℤ) : Option (List Char) :=
  if maxStrDigits<(Nat.toDigits 10 value.natAbs).length then none
  else some (if value<0 then '-'::Nat.toDigits 10 value.natAbs
    else Nat.toDigits 10 value.natAbs)

/-- The digits of a literal, in which an underscore stands between digits. The flag
tells whether a digit comes before. -/
def literalDigits : Bool → List Char → Option (List Char)
  | last,[] => if last then some [] else none
  | last,c::text =>
    if c.isDigit then (literalDigits true text).map (c::·)
    else if c = '_' ∧ last=true then literalDigits false text
    else none

/-- The number of a literal. -/
def literal (text : List Char) : Option ℕ :=
  (literalDigits false text).bind fun digits =>
    if maxStrDigits<digits.length then none else some (Nat.ofDigitChars 10 digits 0)

/-- `int` of a string. -/
def int (text : List Char) : Option ℤ :=
  match strip text with
  | '-'::rest => (literal rest).map fun value : ℕ => -(value : ℤ)
  | '+'::rest => (literal rest).map fun value : ℕ => (value : ℤ)
  | rest => (literal rest).map fun value : ℕ => (value : ℤ)

/-- A text without spaces at its ends is its own. -/
theorem strip_eq {text : List Char} (hhead : ∀ c, text.head?=some c → isSpace c=false)
    (hlast : ∀ c, text.getLast?=some c → isSpace c=false) : strip text=text := by
  have hdrop : ∀ {text : List Char}, (∀ c, text.head?=some c → isSpace c=false) →
      text.dropWhile isSpace=text := by
    intro text h
    cases text with
    | nil => rfl
    | cons c rest =>
      rw [List.dropWhile_cons,h c rfl]
      rfl
  rw [strip,hdrop hhead,@hdrop text.reverse (by rwa [List.head?_reverse]),
    List.reverse_reverse]

/-- A digit is no space. -/
theorem isSpace_digit {c : Char} (h : c.isDigit=true) : isSpace c=false := by
  have hrange : 48 ≤ c.toNat ∧ c.toNat ≤ 57 := by
    simp only [Char.isDigit,Bool.and_eq_true,decide_eq_true_eq] at h
    exact ⟨h.1,h.2⟩
  simp only [isSpace,List.any_cons,List.any_nil,Bool.or_false,Bool.or_eq_false_iff,
    Bool.and_eq_false_iff,decide_eq_false_iff_not]
  omega

/-- Digits are their own literal. -/
theorem literalDigits_eq {text : List Char} (hd : ∀ c∈text, c.isDigit=true) (last : Bool)
    (hlast : last=true ∨ text≠[]) : literalDigits last text=some text := by
  induction text generalizing last with
  | nil =>
    rcases hlast with rfl | h
    · rfl
    · exact absurd rfl h
  | cons c text ih =>
    rw [literalDigits,if_pos (hd c List.mem_cons_self),
      ih (fun d hm => hd d (List.mem_cons_of_mem c hm)) true (Or.inl rfl),Option.map_some]

/-- Digits are read as the number that they write. -/
theorem literal_toDigits {value : ℕ} (h : (Nat.toDigits 10 value).length ≤ maxStrDigits) :
    literal (Nat.toDigits 10 value)=some value := by
  have hd : ∀ c∈Nat.toDigits 10 value, c.isDigit=true :=
    fun _ hm => Nat.isDigit_of_mem_toDigits (by decide) (by decide) hm
  rw [literal,literalDigits_eq hd false (Or.inr Nat.toDigits_ne_nil),Option.bind_some,
    if_neg (Nat.not_lt.mpr h),Nat.ofDigitChars_ten_toDigits]

/-- What is written is read as it was. -/
theorem int_str {value : ℤ} {text : List Char} (h : str value=some text) :
    int text=some value := by
  rw [str] at h
  split at h
  · exact absurd h.symm (Option.some_ne_none text)
  next hle =>
  have hlit := literal_toDigits (Nat.le_of_not_lt hle)
  have hd : ∀ c∈Nat.toDigits 10 value.natAbs, c.isDigit=true :=
    fun _ hm => Nat.isDigit_of_mem_toDigits (by decide) (by decide) hm
  have hlast : ∀ c, (Nat.toDigits 10 value.natAbs).getLast?=some c → isSpace c=false :=
    fun c hc => isSpace_digit (hd c (List.mem_of_getLast? hc))
  have hhead : ∀ c, (Nat.toDigits 10 value.natAbs).head?=some c → isSpace c=false :=
    fun c hc => isSpace_digit (hd c (List.mem_of_head? hc))
  have he := Option.some.inj h
  split at he
  · next hneg =>
    have hstrip : strip ('-'::Nat.toDigits 10 value.natAbs)=
        '-'::Nat.toDigits 10 value.natAbs := by
      refine strip_eq (fun c hc => ?_) (fun c hc => ?_)
      · rw [←Option.some.inj hc]
        decide
      · rw [List.getLast?_cons_of_ne_nil Nat.toDigits_ne_nil] at hc
        exact hlast c hc
    have hsigned : int ('-'::Nat.toDigits 10 value.natAbs)=
        (literal (Nat.toDigits 10 value.natAbs)).map fun n : ℕ => -(n : ℤ) := by
      rw [int,hstrip]
      rfl
    rw [←he,hsigned,hlit,Option.map_some]
    exact congrArg some (by omega)
  · next hpos =>
    obtain ⟨c,rest,hc⟩ := List.exists_cons_of_ne_nil (Nat.toDigits_ne_nil (n := value.natAbs)
      (b := 10))
    have hdigit : c.isDigit=true := hd c (hc ▸ List.mem_cons_self)
    have hunsigned : int (Nat.toDigits 10 value.natAbs)=
        (literal (Nat.toDigits 10 value.natAbs)).map fun n : ℕ => (n : ℤ) := by
      rw [int,strip_eq hhead hlast]
      split
      · next heq =>
        rw [heq] at hd
        exact absurd (hd '-' List.mem_cons_self) (by decide)
      · next heq =>
        rw [heq] at hd
        exact absurd (hd '+' List.mem_cons_self) (by decide)
      · rfl
    rw [←he,hunsigned,hlit,Option.map_some]
    exact congrArg some (by omega)

end CudaForge.PythonStrings
