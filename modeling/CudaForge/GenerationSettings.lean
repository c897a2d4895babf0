import Mathlib.Tactic

/-!
# Sampling settings of a request

`GenerationConfig` as it stands after its validation, which is part of the
type. The temperature is of some type of numbers: a rational one, where
arithmetic is exact, or a float, which need not be a number.
-/

namespace CudaForge.GenerationSettings

/-- Per-request sampling parameters, validated. -/
structure GenerationConfig (F : Type := ℚ) [Zero F] [One F] [LT F] where
  /-- Most tokens to generate. -/
  maxNewTokens : ℕ := 64
  /-- Zero means the most likely token. -/
  temperature : F := 1
  /-- Probability mass the nucleus filter keeps. -/
  topP : ℚ := 1
  /-- Most candidates kept; zero keeps all. -/
  topK : ℕ := 0
  /-- Seed of the random generator. -/
  seed : Option ℤ := none
  maxNewTokens_pos : 0 < maxNewTokens := by decide
  temperature_nonneg : ¬temperature<0 := by decide
  topP_pos : 0<topP := by decide
  topP_le : topP≤1 := by decide
  deriving DecidableEq

theorem default_tokens : 0 < 64 := by decide

theorem default_temperature : ¬(1 : ℚ)<0 := by decide

theorem default_mass : (0 : ℚ)<1 := by decide

theorem default_mass_le : (1 : ℚ)≤1 := by decide

theorem greedy_temperature : ¬(0 : ℚ)<0 := by decide

/-- The settings of a request that gives none. -/
def defaultGeneration : GenerationConfig :=
  ⟨64,1,1,0,none,default_tokens,default_temperature,default_mass,default_mass_le⟩

/-- Temperature 0 means argmax. -/
def GenerationConfig.greedy (generation : GenerationConfig) : Bool :=
  decide (generation.temperature=0)

end CudaForge.GenerationSettings
