import CudaForge.PythonStrings
import CudaForge.TextScans

/-!
# Rules of the CUDA lint

Three rules of `check_cuda_sources` over the lines that `strip_comments` leaves: a
launch is checked before its launcher ends, the status of a call is used in its
statement, and `Convert::` stands under an alias. Each rule scans the lines once; what
it reports is said here of the lines themselves.
-/

namespace CudaForge.LintRules

open PythonStrings TextScans

/-- `Finding`. -/
structure Finding where
  /-- The file. -/
  path : String
  /-- The line, counted from one. -/
  line : ℕ
  /-- The rule. -/
  rule : String
  /-- What it says. -/
  message : String
  deriving DecidableEq

/-- `text in line`. -/
def occurs (text line : List Char) : Bool := decide (text <:+: line)

/-- One line of a file. -/
def lineAt (lines : List (List Char)) (k : ℕ) : List Char := lines.getD k []

section Launches

/-- `LAUNCH_RE.search(line)`. -/
def hasLaunch (line : List Char) : Bool :=
  line.tails.any fun tail => "<<<".toList.isPrefixOf tail &&
    occurs ">>>".toList ((tail.drop 3).takeWhile fun c => decide (c ≠ '\n'))

/-- Whether a line closes a definition at the top level. -/
def closesTop (line : List Char) : Bool := decide (line.head?=some '}')

/-- `function_end`. -/
def functionEnd (lines : List (List Char)) (start : ℕ) : ℕ :=
  (((List.range' (start+1) (lines.length-(start+1))).find? fun index =>
    closesTop (lineAt lines index)).map fun index => index+1).getD lines.length

/-- What `check_launch_is_checked` says of a line. -/
def uncheckedLaunch (path : String) (index : ℕ) : Finding :=
  ⟨path,index+1,"unchecked-launch",
    "kernel launch not followed by CUDAFORGE_CHECK_LAUNCH before the launcher returns"⟩

/-- `check_launch_is_checked`. -/
def checkLaunchIsChecked (path : String) (lines : List (List Char)) : List Finding :=
  ((List.range lines.length).filter fun index => hasLaunch (lineAt lines index) &&
    !occurs "CUDAFORGE_CHECK_LAUNCH".toList
      (['\n'].intercalate ((lines.take (functionEnd lines index)).drop index))).map
    (uncheckedLaunch path)

end Launches

section Statements

/-- `CHECKED_CALLS`. -/
def checkedCalls : List String :=
  ["cudaMalloc","cudaFree","cudaMemcpy","cudaMemcpyAsync","cudaMemsetAsync","cudaStreamCreate",
    "cudaStreamCreateWithFlags","cudaStreamCreateWithPriority","cudaStreamSynchronize",
    "cudaEventRecord","cudaEventSynchronize","cudaSetDevice","cudaGetDevice",
    "cudaDeviceGetAttribute","cudaHostAlloc","cudaFreeHost"]

/-- The forms in which a status counts as used. -/
def acceptedForms : List String :=
  ["CUDAFORGE_CHECK","cudaError_t","cudaSuccess","static_cast<void>"]

/-- Whether a line ends a statement. -/
def endsStatement (line : List Char) : Bool :=
  decide (';' ∈ line) || decide ((strip line).getLast?=some '{') ||
    decide ((strip line).getLast?=some '}')

/-- The loop of `logical_statements`, with the lines of an open statement. -/
def statementsFrom : ℕ → ℕ → List (List Char) → List (List Char) → List (ℕ×List Char)
  | _,first,buffer,[] => if buffer.isEmpty then [] else [(first,[' '].intercalate buffer)]
  | index,first,buffer,line::lines =>
    if buffer.isEmpty && isBlank line then statementsFrom (index+1) first buffer lines
    else
      let start := if buffer.isEmpty then index+1 else first
      if endsStatement line then
        (start,[' '].intercalate (buffer++[strip line]))::statementsFrom (index+1) start [] lines
      else statementsFrom (index+1) start (buffer++[strip line]) lines

/-- `logical_statements`. -/
def logicalStatements (lines : List (List Char)) : List (ℕ×List Char) :=
  statementsFrom 0 1 [] lines

/-- Whether a checked call stands in a text. -/
def calls (name : String) (text : List Char) : Bool := occurs (name.toList++['(']) text

/-- Whether the status of a statement counts as used. -/
def accepted (text : List Char) : Bool := acceptedForms.any fun form => occurs form.toList text

/-- `check_status_is_used`. -/
def checkStatusIsUsed (path : String) (lines : List (List Char)) : List Finding :=
  (logicalStatements lines).filterMap fun statement =>
    (checkedCalls.find? fun name => calls name statement.2).bind fun name =>
      if accepted statement.2 then none
      else some ⟨path,statement.1,"unchecked-status",name++" return value is discarded"⟩

end Statements

section Aliases

/-- What `check_convert_alias_is_declared` says of a line. -/
def undeclaredAlias (path : String) (index : ℕ) : Finding :=
  ⟨path,index+1,"undeclared-convert-alias",
    "Convert:: used without `using Convert = ReducedPrecision<T>;` in the enclosing function"⟩

/-- Whether a line declares the alias. -/
def declares (line : List Char) : Bool := occurs "using Convert".toList line

/-- Whether a line uses it without declaring it. -/
def uses (line : List Char) : Bool := !declares line && occurs "Convert::".toList line

/-- How many more braces a line opens than it closes. -/
def opened (line : List Char) : ℤ := (line.count '{' : ℤ)-(line.count '}' : ℤ)

/-- The loop of `check_convert_alias_is_declared`. -/
def aliasesFrom (path : String) : ℕ → Bool → ℤ → List (List Char) → List Finding
  | _,_,_,[] => []
  | index,declared,depth,line::lines =>
    let found := if uses line && !declared then [undeclaredAlias path index] else []
    let depth := depth+opened line
    if depth ≤ 0 then found++aliasesFrom path (index+1) false 0 lines
    else found++aliasesFrom path (index+1) (declares line || declared) depth lines

/-- `check_convert_alias_is_declared`. -/
def checkConvertAliasIsDeclared (path : String) (lines : List (List Char)) : List Finding :=
  aliasesFrom path 0 false 0 lines

end Aliases

/-- Where lines are left, the next one is the first of them. -/
theorem drop_eq_lineAt {lines : List (List Char)} {i : ℕ} (h : i < lines.length) :
    lines.drop i=lineAt lines i::lines.drop (i+1) := by
  rw [List.drop_eq_getElem_cons h,lineAt,List.getD_eq_getElem?_getD,List.getElem?_eq_getElem h,
    Option.getD_some]

/-- A text is searched as it is read. -/
theorem occurs_iff (text line : List Char) : occurs text line=true ↔ text <:+: line :=
  decide_eq_true_iff

/-- A text stands in a line from some place on. -/
theorem mem_lineAt {lines : List (List Char)} {first last : ℕ} {line : List Char} :
    line∈(lines.take last).drop first ↔
      ∃ k, first ≤ k ∧ k < last ∧ k < lines.length ∧ lineAt lines k=line := by
  constructor
  · intro h
    obtain ⟨i,hi,he⟩ := List.getElem_of_mem h
    rw [List.getElem_drop,List.getElem_take] at he
    rw [List.length_drop,List.length_take] at hi
    refine ⟨first+i,Nat.le_add_right first i,by omega,by omega,?_⟩
    rw [lineAt,List.getD_eq_getElem?_getD,List.getElem?_eq_getElem (by omega),Option.getD_some,he]
  · intro h
    obtain ⟨k,hle,hlt,hlen,rfl⟩ := h
    rw [lineAt,List.getD_eq_getElem?_getD,List.getElem?_eq_getElem hlen,Option.getD_some]
    have hk : k-first < ((lines.take last).drop first).length := by
      rw [List.length_drop,List.length_take]
      omega
    have he : ((lines.take last).drop first)[k-first]=lines[k] := by
      rw [List.getElem_drop,List.getElem_take]
      exact getElem_congr_idx (by omega)
    exact he ▸ List.getElem_mem hk

/-- A definition ends past the next line that closes one, or with the file. -/
theorem lt_functionEnd_iff (lines : List (List Char)) (start : ℕ) {k : ℕ}
    (hlen : k < lines.length) : k < functionEnd lines start ↔
      ∀ m, start < m → m < k → closesTop (lineAt lines m)=false := by
  rw [functionEnd]
  cases hf : (List.range' (start+1) (lines.length-(start+1))).find? (fun index =>
      closesTop (lineAt lines index)) with
  | none =>
    rw [Option.map_none,Option.getD_none]
    refine ⟨fun _ m hlow hm => ?_,fun _ => hlen⟩
    have h := List.find?_eq_none.mp hf m (List.mem_range'_1.mpr ⟨hlow,by omega⟩)
    exact Bool.eq_false_of_not_eq_true h
  | some last =>
    rw [Option.map_some,Option.getD_some]
    have hlast : closesTop (lineAt lines last)=true :=
      List.find?_some (p := fun index => closesTop (lineAt lines index)) hf
    obtain ⟨hlow,-⟩ := List.mem_range'_1.mp (List.mem_of_find?_eq_some hf)
    constructor
    · intro h m hm hmk
      by_contra hclose
      have hbefore := List.find?_eq_some_iff_getElem.mp hf
      obtain ⟨-,i,hi,he,hbefore⟩ := hbefore
      rw [List.getElem_range'] at he
      have hj := hbefore (m-(start+1)) (by omega)
      rw [List.getElem_range',one_mul,Nat.add_sub_cancel' (by omega)] at hj
      exact hclose (by rwa [Bool.not_eq_true'] at hj)
    · intro h
      by_contra hge
      have hno := h last (by omega) (by omega)
      rw [hno] at hlast
      exact Bool.false_ne_true hlast

/-- A launch is reported exactly when every check that follows it in the file comes
after a line that closes a definition at the top level. -/
theorem checkLaunchIsChecked_iff (path : String) (lines : List (List Char)) (f : Finding) :
    f∈checkLaunchIsChecked path lines ↔ ∃ n < lines.length, f=uncheckedLaunch path n ∧
      hasLaunch (lineAt lines n)=true ∧
      ∀ k < lines.length, n ≤ k → "CUDAFORGE_CHECK_LAUNCH".toList <:+: lineAt lines k →
        ∃ m, n < m ∧ m < k ∧ (lineAt lines m).head?=some '}' := by
  have hscope : ∀ n, occurs "CUDAFORGE_CHECK_LAUNCH".toList
      (['\n'].intercalate ((lines.take (functionEnd lines n)).drop n))=false ↔
      ∀ k < lines.length, n ≤ k → "CUDAFORGE_CHECK_LAUNCH".toList <:+: lineAt lines k →
        ∃ m, n < m ∧ m < k ∧ (lineAt lines m).head?=some '}' := by
    intro n
    rw [←Bool.not_eq_true,occurs_iff,infix_intercalate_iff (by decide) (by decide)]
    constructor
    · intro h k hk hle hin
      by_contra hnone
      refine h ⟨lineAt lines k,mem_lineAt.mpr ⟨k,hle,?_,hk,rfl⟩,hin⟩
      refine (lt_functionEnd_iff lines n hk).mpr fun m hm hmk => ?_
      exact decide_eq_false fun hclose => hnone ⟨m,hm,hmk,hclose⟩
    · intro h hin
      obtain ⟨line,hm,hin⟩ := hin
      obtain ⟨k,hle,hlt,hk,rfl⟩ := mem_lineAt.mp hm
      obtain ⟨m,hnm,hmk,hclose⟩ := h k hk hle hin
      exact absurd hclose
        (of_decide_eq_false ((lt_functionEnd_iff lines n hk).mp hlt m hnm hmk))
  rw [checkLaunchIsChecked,List.mem_map]
  constructor
  · intro h
    obtain ⟨n,hm,rfl⟩ := h
    obtain ⟨hn,hboth⟩ := List.mem_filter.mp hm
    obtain ⟨hlaunch,hcheck⟩ := Bool.and_eq_true_iff.mp hboth
    exact ⟨n,List.mem_range.mp hn,rfl,hlaunch,(hscope n).mp ((Bool.not_eq_true' _).mp hcheck)⟩
  · intro h
    obtain ⟨n,hn,rfl,hlaunch,hcheck⟩ := h
    refine ⟨n,List.mem_filter.mpr ⟨List.mem_range.mpr hn,?_⟩,rfl⟩
    rw [hlaunch,(hscope n).mpr hcheck]
    rfl

/-- How deep the braces are before a line, as the rule counts. -/
def depthBefore (lines : List (List Char)) : ℕ → ℤ :=
  clamped fun k => opened (lineAt lines k)

/-- Whether the rule takes the alias for declared before a line. -/
def declaredBefore (lines : List (List Char)) : ℕ → Bool :=
  latched (fun k => declares (lineAt lines k)) (fun k => decide (depthBefore lines (k+1)=0))

/-- What the loop reports from a line on. -/
theorem aliasesFrom_eq (path : String) (lines : List (List Char)) (i count : ℕ)
    (h : i+count=lines.length) :
    aliasesFrom path i (declaredBefore lines i) (depthBefore lines i) (lines.drop i)=
      ((List.range' i count).filter fun k =>
        uses (lineAt lines k) && !declaredBefore lines k).map (undeclaredAlias path) := by
  induction count generalizing i with
  | zero =>
    rw [List.drop_eq_nil_of_le (by omega)]
    rfl
  | succ count ih =>
    have hnext := ih (i+1) (by omega)
    have hdepth : depthBefore lines (i+1)=
        max 0 (depthBefore lines i+opened (lineAt lines i)) := rfl
    have hdeclared : declaredBefore lines (i+1)=
        (!decide (depthBefore lines (i+1)=0) &&
          (declares (lineAt lines i) || declaredBefore lines i)) := rfl
    have hfound : (if uses (lineAt lines i) && !declaredBefore lines i then
          [undeclaredAlias path i] else [])++
        ((List.range' (i+1) count).filter fun k =>
          uses (lineAt lines k) && !declaredBefore lines k).map (undeclaredAlias path)=
        ((List.range' i (count+1)).filter fun k =>
          uses (lineAt lines k) && !declaredBefore lines k).map (undeclaredAlias path) := by
      rw [List.range'_succ,List.filter_cons]
      split <;> rfl
    rw [drop_eq_lineAt (by omega : i < lines.length),aliasesFrom]
    split
    · next hle =>
      rw [max_eq_left hle] at hdepth
      rw [hdepth,decide_eq_true rfl] at hdeclared
      rw [hdepth,hdeclared] at hnext
      rw [←hfound,←hnext]
      rfl
    · next hlt =>
      have hpos : 0 < depthBefore lines i+opened (lineAt lines i) := Int.not_le.mp hlt
      rw [max_eq_right hpos.le] at hdepth
      rw [hdepth,decide_eq_false hpos.ne'] at hdeclared
      rw [hdepth,hdeclared] at hnext
      rw [←hfound,←hnext]
      rfl

/-- `Convert::` is reported on a line exactly when every declaration before that line was
followed, on its own line or before the use, by a line at which no run of lines up to it
opens more braces than it closes. -/
theorem checkConvertAliasIsDeclared_iff (path : String) (lines : List (List Char))
    (f : Finding) : f∈checkConvertAliasIsDeclared path lines ↔
      ∃ n < lines.length, f=undeclaredAlias path n ∧
        "Convert::".toList <:+: lineAt lines n ∧
        ¬"using Convert".toList <:+: lineAt lines n ∧
        ∀ j < n, "using Convert".toList <:+: lineAt lines j → ∃ k, j ≤ k ∧ k < n ∧
          ∀ m ≤ k+1, ∑ i∈Finset.Ico m (k+1), opened (lineAt lines i) ≤ 0 := by
  have hrun : checkConvertAliasIsDeclared path lines=
      ((List.range' 0 lines.length).filter fun k =>
        uses (lineAt lines k) && !declaredBefore lines k).map (undeclaredAlias path) :=
    aliasesFrom_eq path lines 0 lines.length (Nat.zero_add _)
  have hflag : ∀ n, declaredBefore lines n=false ↔
      ∀ j < n, "using Convert".toList <:+: lineAt lines j → ∃ k, j ≤ k ∧ k < n ∧
        ∀ m ≤ k+1, ∑ i∈Finset.Ico m (k+1), opened (lineAt lines i) ≤ 0 := by
    intro n
    rw [←Bool.not_eq_true,declaredBefore,latched_iff]
    constructor
    · intro h j hj hin
      by_contra hnone
      refine h ⟨j,hj,decide_eq_true hin,fun k hle hlt => decide_eq_false fun hzero => ?_⟩
      exact hnone ⟨k,hle,hlt,(clamped_eq_zero_iff _ (k+1)).mp hzero⟩
    · intro h hup
      obtain ⟨j,hj,hset,hkeep⟩ := hup
      obtain ⟨k,hle,hlt,hsums⟩ := h j hj (of_decide_eq_true hset)
      exact of_decide_eq_false (hkeep k hle hlt) ((clamped_eq_zero_iff _ (k+1)).mpr hsums)
  rw [hrun,List.mem_map]
  constructor
  · intro h
    obtain ⟨n,hm,rfl⟩ := h
    obtain ⟨hn,hboth⟩ := List.mem_filter.mp hm
    obtain ⟨huses,hdeclared⟩ := Bool.and_eq_true_iff.mp hboth
    obtain ⟨hnot,hin⟩ := Bool.and_eq_true_iff.mp huses
    obtain ⟨-,hlt⟩ := List.mem_range'_1.mp hn
    exact ⟨n,by omega,rfl,of_decide_eq_true hin,
      of_decide_eq_false ((Bool.not_eq_true' _).mp hnot),
      (hflag n).mp ((Bool.not_eq_true' _).mp hdeclared)⟩
  · intro h
    obtain ⟨n,hn,rfl,hin,hnot,hafter⟩ := h
    refine ⟨n,List.mem_filter.mpr ⟨List.mem_range'_1.mpr ⟨Nat.zero_le n,by omega⟩,?_⟩,rfl⟩
    rw [(hflag n).mpr hafter,uses,declares,occurs,occurs,decide_eq_true hin,decide_eq_false hnot]
    rfl

/-- Some lines without the spaces at their ends. -/
def stripped (lines : List (List Char)) (first last : ℕ) : List (List Char) :=
  (List.range' first (last-first)).map fun k => strip (lineAt lines k)

/-- The statement that some lines make up. -/
def statementOf (lines : List (List Char)) (span : ℕ×ℕ) : ℕ×List Char :=
  (span.1+1,[' '].intercalate (stripped lines span.1 span.2))

/-- The lines of the statements from a line on: between two statements all lines are
blank, a statement starts with a line that is not, and its last line is the first one
that ends it, or the last of the file. -/
inductive Spans (lines : List (List Char)) : ℕ → List (ℕ×ℕ) → Prop where
  /-- There is no statement left. -/
  | done {start : ℕ} (hblank : ∀ k < lines.length, start ≤ k → isBlank (lineAt lines k)=true) :
    Spans lines start []
  /-- There is one more. -/
  | next {start first last : ℕ} {rest : List (ℕ×ℕ)} (hstart : start ≤ first)
    (hblank : ∀ k < first, start ≤ k → isBlank (lineAt lines k)=true)
    (hsome : isBlank (lineAt lines first)=false) (hfirst : first < last)
    (hlast : last ≤ lines.length)
    (hopen : ∀ k, first ≤ k → k+1 < last → endsStatement (lineAt lines k)=false)
    (hend : endsStatement (lineAt lines (last-1))=true ∨ last=lines.length)
    (hrest : Spans lines last rest) : Spans lines start ((first,last)::rest)

/-- One more line of an open statement. -/
theorem stripped_succ (lines : List (List Char)) {first last : ℕ} (h : first ≤ last) :
    stripped lines first last++[strip (lineAt lines last)]=stripped lines first (last+1) := by
  rw [stripped,stripped,Nat.succ_sub h,List.range'_1_concat,List.map_append,List.map_singleton,
    Nat.add_sub_cancel' h]

/-- An open statement has a line. -/
theorem stripped_isEmpty (lines : List (List Char)) {first last : ℕ} (h : first < last) :
    (stripped lines first last).isEmpty=false := by
  have hlen : (stripped lines first last).length=last-first := by
    rw [stripped,List.length_map,List.length_range']
  rw [List.isEmpty_eq_false_iff,←List.length_pos_iff,hlen]
  exact Nat.sub_pos_of_lt h

/-- What the loop gives from a line on, between two statements and within one. -/
theorem statementsFrom_spans (lines : List (List Char)) (i count : ℕ)
    (h : i+count=lines.length) (start : ℕ) :
    (∀ first, start ≤ i → (∀ k < i, start ≤ k → isBlank (lineAt lines k)=true) →
      ∃ spans, Spans lines start spans ∧
        statementsFrom i first [] (lines.drop i)=spans.map (statementOf lines)) ∧
    (∀ a < i, start ≤ a → (∀ k < a, start ≤ k → isBlank (lineAt lines k)=true) →
      isBlank (lineAt lines a)=false →
      (∀ k, a ≤ k → k < i → endsStatement (lineAt lines k)=false) →
      ∃ spans, Spans lines start spans ∧
        statementsFrom i (a+1) (stripped lines a i) (lines.drop i)=
          spans.map (statementOf lines)) := by
  induction count generalizing i start with
  | zero =>
    rw [List.drop_eq_nil_of_le (by omega)]
    refine ⟨fun first _ hblank => ?_,fun a ha hstart hblank hsome hopen => ?_⟩
    · exact ⟨[],.done fun k hk hle => hblank k (by omega) hle,rfl⟩
    · refine ⟨[(a,i)],.next hstart hblank hsome ha (by omega)
        (fun k hle hlt => hopen k hle (by omega)) (Or.inr (by omega))
        (.done fun k hk hle => by omega),?_⟩
      rw [statementsFrom,stripped_isEmpty lines ha]
      rfl
  | succ count ih =>
    have hi : i < lines.length := by omega
    rw [drop_eq_lineAt hi]
    refine ⟨fun first hstart hblank => ?_,fun a ha hstart hblank hsome hopen => ?_⟩
    · rw [statementsFrom]
      by_cases hb : isBlank (lineAt lines i)=true
      · rw [if_pos (by rw [hb]; rfl)]
        refine (ih (i+1) (by omega) start).1 first (by omega) fun k hk hle => ?_
        rcases Nat.lt_succ_iff_lt_or_eq.mp hk with hlt | rfl
        · exact hblank k hlt hle
        · exact hb
      · have hsome := Bool.eq_false_of_not_eq_true hb
        rw [if_neg (by rw [hsome]; exact Bool.false_ne_true)]
        have hone : stripped lines i (i+1)=[]++[strip (lineAt lines i)] := by
          rw [stripped,Nat.add_sub_cancel_left]
          rfl
        by_cases hends : endsStatement (lineAt lines i)=true
        · obtain ⟨spans,hspans,hrun⟩ :=
            (ih (i+1) (by omega) (i+1)).1 (i+1) le_rfl (fun k hk hle => by omega)
          refine ⟨(i,i+1)::spans,.next hstart hblank hsome (Nat.lt_succ_self i) (by omega)
            (fun k hle hlt => by omega) (Or.inl hends) hspans,?_⟩
          rw [List.map_cons,←hrun,statementOf,hone]
          exact if_pos hends
        · have hopen := Bool.eq_false_of_not_eq_true hends
          obtain ⟨spans,hspans,hrun⟩ := (ih (i+1) (by omega) start).2 i (Nat.lt_succ_self i)
            hstart hblank hsome
              fun k hle hlt => Nat.le_antisymm hle (Nat.lt_succ_iff.mp hlt) ▸ hopen
          refine ⟨spans,hspans,?_⟩
          rw [←hrun,hone]
          exact if_neg hends
    · have hempty := stripped_isEmpty lines ha
      rw [statementsFrom,hempty,Bool.false_and,if_neg Bool.false_ne_true,
        stripped_succ lines ha.le]
      by_cases hends : endsStatement (lineAt lines i)=true
      · obtain ⟨spans,hspans,hrun⟩ :=
          (ih (i+1) (by omega) (i+1)).1 (a+1) le_rfl (fun k hk hle => by omega)
        refine ⟨(a,i+1)::spans,.next hstart hblank hsome (by omega) (by omega)
          (fun k hle hlt => hopen k hle (by omega)) (Or.inl hends) hspans,?_⟩
        rw [List.map_cons,←hrun]
        exact if_pos hends
      · obtain ⟨spans,hspans,hrun⟩ := (ih (i+1) (by omega) start).2 a (by omega) hstart hblank
          hsome fun k hle hlt => by
            rcases Nat.lt_succ_iff_lt_or_eq.mp hlt with hk | rfl
            · exact hopen k hle hk
            · exact Bool.eq_false_of_not_eq_true hends
        refine ⟨spans,hspans,?_⟩
        rw [←hrun]
        exact if_neg hends

/-- A text without spaces. -/
def solid (text : List Char) : Bool := !text.isEmpty && text.all fun c => !isSpace c

/-- The calls that are looked for are without spaces. -/
theorem checkedCalls_solid : (checkedCalls.all fun name => solid (name.toList++['(']))=true := by
  decide +kernel

/-- So are the accepted forms. -/
theorem acceptedForms_solid : (acceptedForms.all fun form => solid form.toList)=true := by
  decide +kernel

/-- A text without spaces survives `strip`. -/
theorem infix_strip_iff {text : List Char} (h : solid text=true) (line : List Char) :
    text <:+: strip line ↔ text <:+: line := by
  obtain ⟨hsome,hall⟩ := Bool.and_eq_true_iff.mp h
  have hne : text≠[] := List.isEmpty_eq_false_iff.mp ((Bool.not_eq_true' _).mp hsome)
  have hkeep : ∀ c∈text, isSpace c=false := fun c hc =>
    (Bool.not_eq_true' _).mp (List.all_eq_true.mp hall c hc)
  have hhead : ∃ c, text.head?=some c ∧ isSpace c=false :=
    ⟨text.head hne,List.head?_eq_some_head hne,hkeep _ (List.head_mem hne)⟩
  have hlast : ∃ c, text.reverse.head?=some c ∧ isSpace c=false := by
    refine ⟨text.getLast hne,?_,hkeep _ (List.getLast_mem hne)⟩
    rw [List.head?_reverse,List.getLast?_eq_some_getLast hne]
  rw [strip,←List.reverse_infix,List.reverse_reverse,infix_dropWhile_iff hlast,
    List.reverse_infix,infix_dropWhile_iff hhead]

/-- A text without spaces stands in a statement exactly when it stands in one of its
lines. -/
theorem infix_statementOf_iff {text : List Char} (h : solid text=true)
    (lines : List (List Char)) (span : ℕ×ℕ) : text <:+: (statementOf lines span).2 ↔
      ∃ k, span.1 ≤ k ∧ k < span.2 ∧ text <:+: lineAt lines k := by
  obtain ⟨hsome,hall⟩ := Bool.and_eq_true_iff.mp h
  have hne : text≠[] := List.isEmpty_eq_false_iff.mp ((Bool.not_eq_true' _).mp hsome)
  have hblank : ' ' ∉ text := fun hm =>
    absurd (List.all_eq_true.mp hall ' ' hm) (by decide)
  rw [statementOf,infix_intercalate_iff hne hblank,stripped]
  constructor
  · intro hin
    obtain ⟨part,hm,hin⟩ := hin
    obtain ⟨k,hk,rfl⟩ := List.mem_map.mp hm
    obtain ⟨hle,hlt⟩ := List.mem_range'_1.mp hk
    exact ⟨k,hle,by omega,(infix_strip_iff h _).mp hin⟩
  · intro hin
    obtain ⟨k,hle,hlt,hin⟩ := hin
    exact ⟨_,List.mem_map.mpr ⟨k,List.mem_range'_1.mpr ⟨hle,by omega⟩,rfl⟩,
      (infix_strip_iff h _).mpr hin⟩

/-- Whether the status of a statement counts as used, said of its lines. -/
theorem accepted_statementOf_iff (lines : List (List Char)) (span : ℕ×ℕ) :
    accepted (statementOf lines span).2=true ↔
      ∃ k, span.1 ≤ k ∧ k < span.2 ∧ ∃ form∈acceptedForms, form.toList <:+: lineAt lines k := by
  rw [accepted,List.any_eq_true]
  constructor
  · intro h
    obtain ⟨form,hm,hin⟩ := h
    obtain ⟨k,hle,hlt,hin⟩ := (infix_statementOf_iff
      (List.all_eq_true.mp acceptedForms_solid form hm) lines span).mp (of_decide_eq_true hin)
    exact ⟨k,hle,hlt,form,hm,hin⟩
  · intro h
    obtain ⟨k,hle,hlt,form,hm,hin⟩ := h
    exact ⟨form,hm,decide_eq_true ((infix_statementOf_iff
      (List.all_eq_true.mp acceptedForms_solid form hm) lines span).mpr ⟨k,hle,hlt,hin⟩)⟩

/-- Whether a statement has a checked call, said of its lines. -/
theorem calls_statementOf_iff (lines : List (List Char)) (span : ℕ×ℕ) :
    (checkedCalls.find? fun name => calls name (statementOf lines span).2).isSome=true ↔
      ∃ k, span.1 ≤ k ∧ k < span.2 ∧
        ∃ name∈checkedCalls, name.toList++['('] <:+: lineAt lines k := by
  rw [List.find?_isSome]
  constructor
  · intro h
    obtain ⟨name,hm,hin⟩ := h
    obtain ⟨k,hle,hlt,hin⟩ := (infix_statementOf_iff
      (List.all_eq_true.mp checkedCalls_solid name hm) lines span).mp (of_decide_eq_true hin)
    exact ⟨k,hle,hlt,name,hm,hin⟩
  · intro h
    obtain ⟨k,hle,hlt,name,hm,hin⟩ := h
    exact ⟨name,hm,decide_eq_true ((infix_statementOf_iff
      (List.all_eq_true.mp checkedCalls_solid name hm) lines span).mpr ⟨k,hle,hlt,hin⟩)⟩

/-- The statements of a file are runs of lines, apart from blank lines between them: each
starts with a line that is not blank and goes on to the first line that ends it. A
statement is reported, under its first line, exactly when a checked call stands in one of
its lines and an accepted form in none of them, however the lines are indented. -/
theorem checkStatusIsUsed_statements (path : String) (lines : List (List Char)) :
    ∃ spans, Spans lines 0 spans ∧
      logicalStatements lines=spans.map (statementOf lines) ∧
      ∀ n, n∈(checkStatusIsUsed path lines).map Finding.line ↔ ∃ span∈spans, n=span.1+1 ∧
        (∃ k, span.1 ≤ k ∧ k < span.2 ∧
          ∃ name∈checkedCalls, name.toList++['('] <:+: lineAt lines k) ∧
        ∀ k, span.1 ≤ k → k < span.2 → ∀ form∈acceptedForms,
          ¬form.toList <:+: lineAt lines k := by
  obtain ⟨spans,hspans,hrun⟩ :=
    (statementsFrom_spans lines 0 lines.length (Nat.zero_add _) 0).1 1 le_rfl
      (fun k hk => absurd hk (Nat.not_lt_zero k))
  rw [List.drop_zero] at hrun
  have hrun : logicalStatements lines=spans.map (statementOf lines) := hrun
  refine ⟨spans,hspans,hrun,fun n => ?_⟩
  have hnone : ∀ span, accepted (statementOf lines span).2=false ↔
      ∀ k, span.1 ≤ k → k < span.2 → ∀ form∈acceptedForms,
        ¬form.toList <:+: lineAt lines k := by
    intro span
    rw [←Bool.not_eq_true,accepted_statementOf_iff]
    constructor
    · intro h k hle hlt form hm hin
      exact h ⟨k,hle,hlt,form,hm,hin⟩
    · intro h hin
      obtain ⟨k,hle,hlt,form,hm,hin⟩ := hin
      exact h k hle hlt form hm hin
  rw [checkStatusIsUsed,hrun,List.mem_map]
  constructor
  · intro h
    obtain ⟨f,hm,rfl⟩ := h
    obtain ⟨statement,hs,hf⟩ := List.mem_filterMap.mp hm
    obtain ⟨span,hspan,rfl⟩ := List.mem_map.mp hs
    obtain ⟨name,hname,hf⟩ := Option.bind_eq_some_iff.mp hf
    split at hf
    · exact absurd hf (by simp only [reduceCtorEq,not_false_eq_true])
    · next hno =>
      rw [←Option.some.inj hf]
      exact ⟨span,hspan,rfl,(calls_statementOf_iff lines span).mp (Option.isSome_of_eq_some hname),
        (hnone span).mp (Bool.eq_false_of_not_eq_true hno)⟩
  · intro h
    obtain ⟨span,hspan,rfl,hcall,hno⟩ := h
    obtain ⟨name,hname⟩ :=
      Option.isSome_iff_exists.mp ((calls_statementOf_iff lines span).mpr hcall)
    refine ⟨_,List.mem_filterMap.mpr ⟨_,List.mem_map_of_mem hspan,
      Option.bind_eq_some_iff.mpr ⟨name,hname,if_neg ?_⟩⟩,rfl⟩
    rw [(hnone span).mpr hno]
    exact Bool.false_ne_true

end CudaForge.LintRules
