import CudaForge.RejectionSampling

/-!
# Random programs that may raise

Programs over `ExceptT ε PMF`: a draw, an exception, and sequencing. Two
draws that do not depend on each other commute, a draw that nothing reads
can be dropped, and two continuations that agree on every possible result
give the same program.
-/

namespace CudaForge.RandomPrograms

variable {ε α β γ : Type}

/-- A program that draws, may raise and is run once. -/
abbrev Random (ε : Type) := ExceptT ε PMF

/-- A draw as a program. -/
noncomputable def draw (μ : PMF α) : Random ε α := ExceptT.lift μ

/-- Programs are what they run as. -/
theorem ext_run {x y : Random ε α} (h : x.run=y.run) : x=y := h

/-- Running a draw and what follows it. -/
theorem run_draw_bind (μ : PMF α) (f : α → Random ε β) :
    (draw μ >>= f).run=μ.bind (fun a => (f a).run) := by
  have hr : (draw μ >>= f : Random ε β).run=
      (PMF.bind μ (fun a => PMF.pure (Except.ok a))).bind (ExceptT.bindCont f) := rfl
  rw [hr,PMF.bind_bind]
  congr 1
  funext a
  rw [PMF.pure_bind]
  rfl

/-- A draw of a distribution built by drawing. -/
theorem draw_bind (μ : PMF α) (f : α → PMF β) :
    (draw (μ.bind f) : Random ε β)=draw μ >>= fun a => draw (f a) := by
  apply ext_run
  rw [run_draw_bind]
  exact PMF.bind_bind μ f _

theorem draw_pure (a : α) : (draw (PMF.pure a) : Random ε α)=pure a := by
  apply ext_run
  exact PMF.pure_bind a _

/-- An exception ends the program. -/
theorem throw_bind (e : ε) (f : α → Random ε β) : (throw e : Random ε α) >>= f=throw e := by
  apply ext_run
  exact PMF.pure_bind (Except.error e) (ExceptT.bindCont f)

/-- Independent draws commute. -/
theorem draw_comm (μ : PMF α) (ν : PMF β) (f : α → β → Random ε γ) :
    (draw μ >>= fun a => draw ν >>= fun b => f a b)=
      draw ν >>= fun b => draw μ >>= fun a => f a b := by
  apply ext_run
  simp only [run_draw_bind]
  exact PMF.bind_comm μ ν _

/-- A draw that nothing reads can be dropped. -/
theorem draw_const (μ : PMF α) (x : Random ε β) : (draw μ >>= fun _ => x)=x := by
  apply ext_run
  rw [run_draw_bind]
  exact PMF.bind_const μ _

/-- The program may return the value. -/
def Returns (x : Random ε α) (a : α) : Prop := Except.ok a∈PMF.support x.run

theorem returns_pure {a b : α} : Returns (pure a : Random ε α) b ↔ b=a := by
  have hs : PMF.support (pure a : Random ε α).run={Except.ok a} := PMF.support_pure _
  rw [Returns,hs,Set.mem_singleton_iff,Except.ok.injEq]

/-- What a draw may return. -/
theorem returns_draw {μ : PMF α} {a : α} : Returns (draw μ : Random ε α) a ↔ a∈μ.support := by
  have hr : (draw μ : Random ε α).run=μ.bind (fun b => PMF.pure (Except.ok b)) := rfl
  rw [Returns,hr,PMF.mem_support_bind_iff]
  constructor
  · rintro ⟨b,hb,he⟩
    rw [PMF.mem_support_pure_iff,Except.ok.injEq] at he
    exact he ▸ hb
  · intro ha
    exact ⟨a,ha,(PMF.mem_support_pure_iff _ _).mpr rfl⟩

/-- What a sequence may return. -/
theorem returns_bind {x : Random ε α} {f : α → Random ε β} {b : β} :
    Returns (x >>= f) b ↔ ∃ a, Returns x a ∧ Returns (f a) b := by
  have hr : (x >>= f).run=PMF.bind x.run (ExceptT.bindCont f) := rfl
  rw [Returns,hr,PMF.mem_support_bind_iff]
  constructor
  · rintro ⟨r,hx,hb⟩
    cases r with
    | ok a => exact ⟨a,hx,hb⟩
    | error e =>
      have hp : Except.ok b∈PMF.support (PMF.pure (Except.error e : Except ε β)) := hb
      rw [PMF.mem_support_pure_iff] at hp
      exact absurd hp (by simp only [reduceCtorEq,not_false_eq_true])
  · rintro ⟨a,ha,hb⟩
    exact ⟨Except.ok a,ha,hb⟩

/-- Continuations that agree on every possible result. -/
theorem bind_congr_returns {x : Random ε α} {f g : α → Random ε β}
    (h : ∀ a, Returns x a → f a=g a) : x >>= f=x >>= g := by
  have hf : ∀ k : α → Random ε β, (x >>= k).run=PMF.bind x.run (ExceptT.bindCont k) :=
    fun _ => rfl
  apply ext_run
  rw [hf,hf,←PMF.bindOnSupport_eq_bind,←PMF.bindOnSupport_eq_bind]
  congr 1
  funext r hr
  cases r with
  | ok a => exact congrArg ExceptT.run (h a hr)
  | error e => rfl

section Expectation

open scoped ENNReal

/-- The expected value of a function of a draw. -/
noncomputable def mean (μ : PMF α) (g : α → ℝ≥0∞) : ℝ≥0∞ :=
  tsum (fun a => μ a*g a)

theorem mean_pure (a : α) (g : α → ℝ≥0∞) : mean (PMF.pure a) g=g a := by
  rw [mean,tsum_eq_single a]
  · rw [PMF.pure_apply,if_pos rfl,one_mul]
  · intro b hb
    rw [PMF.pure_apply,if_neg hb,zero_mul]

/-- A draw that depends on another. -/
theorem mean_bind (μ : PMF β) (f : β → PMF α) (g : α → ℝ≥0∞) :
    mean (μ.bind f) g=mean μ (fun b => mean (f b) g) := by
  simp only [mean,PMF.bind_apply,←ENNReal.tsum_mul_right,←ENNReal.tsum_mul_left]
  rw [ENNReal.tsum_comm]
  simp only [mul_assoc]

theorem mean_const (μ : PMF α) (c : ℝ≥0∞) : mean μ (fun _ => c)=c := by
  rw [mean,ENNReal.tsum_mul_right,μ.tsum_coe,one_mul]

theorem mean_add (μ : PMF α) (g h : α → ℝ≥0∞) :
    mean μ (fun a => g a+h a)=mean μ g+mean μ h := by
  simp only [mean,mul_add]
  exact ENNReal.tsum_add

/-- The expected value of what a program ends with, exceptions included. -/
noncomputable def expectation (x : Random ε α) (g : Except ε α → ℝ≥0∞) : ℝ≥0∞ := mean x.run g

variable {g : Except ε α → ℝ≥0∞}

theorem expect_pure (a : α) : expectation (pure a : Random ε α) g=g (.ok a) := mean_pure _ _

/-- A program that starts with a draw. -/
theorem expect_draw_bind (μ : PMF β) (f : β → Random ε α) :
    expectation (draw μ >>= f) g=mean μ (fun b => expectation (f b) g) := by
  rw [expectation,run_draw_bind]
  exact mean_bind μ _ g

/-- A program whose result is rewritten at the end. -/
theorem expect_bind_pure (x : Random ε β) (f : β → α) :
    expectation (x >>= fun b => pure (f b)) g=expectation x (fun r => g (r.map f)) := by
  have hr : (x >>= fun b => (pure (f b) : Random ε α)).run=
      PMF.bind x.run (ExceptT.bindCont (fun b => pure (f b))) := rfl
  rw [expectation,hr,mean_bind]
  refine congrArg (mean x.run) (funext fun r => ?_)
  cases r with
  | ok b => exact mean_pure _ _
  | error e => exact mean_pure _ _

end Expectation

end CudaForge.RandomPrograms
